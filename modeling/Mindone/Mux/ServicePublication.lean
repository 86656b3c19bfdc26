import Mindone.Lib.Trace
import Mindone.Mux.RuntimeEffects
import Mindone.Mux.RuntimeLedger

/-!
# Mindone.Mux.ServicePublication

**What the service publishes.** The property writes and the openings of every run follow one
small protocol, given as the monitor `Stage.next`:

* the reporter and the exception are cleared first, and only then the modem is opened;
* the multiplexer and the interface layer are announced once, in this order, and only after
  that the interface layer may be restarted;
* a write that the backend rejects is the last entry.

`Host.Sound` ties the state of the `Publication` to the stage. Every operation on the host
keeps it, whoever performs it: the service, or the runtime in the middle of a turn. What is
left of the service is that a rejection also finishes it.
-/

namespace Mindone.Mux.Service

open Mindone.Lib

/-! ### The protocol -/

inductive Stage
  | fresh
  | reporting
  | initialized
  | muxReady
  | started
  | rejected
  deriving DecidableEq

namespace Stage

/-- The stage behind a write that is accepted; `none` for a write out of turn. -/
def after : Stage → Property → Value → Option Stage
  | .fresh, .reporterRunning, .zero => some .reporting
  | .reporting, .modemException, .zero => some .initialized
  | .initialized, .muxReady, .one => some .muxReady
  | .muxReady, .rilReady, .one => some .started
  | .started, .rilRestart, .one => some .started
  | stage, property, value =>
      if (stage = .initialized ∨ stage = .started) ∧
          ((property = .modemException ∧ value = .one) ∨
            (property = .atciUnavailable ∧ value = .one) ∨
            (property = .reportCase ∧ value ≠ .zero) ∨ (property = .report ∧ value = .one)) then
        some stage
      else none

def next : Stage → Log → Option Stage
  | stage, .wrote property value accepted =>
      (stage.after property value).map fun stage => if accepted then stage else .rejected
  | stage, .opened => if stage = .initialized ∨ stage = .started then some stage else none

/-- The publication at a stage. Two stages are passed inside of one operation only. -/
def Agrees : Stage → Publication → Prop
  | .fresh, p => p.initialized = false ∧ p.rilStarted = false ∧ p.rejected = false
  | .initialized, p => p.initialized = true ∧ p.rilStarted = false ∧ p.rejected = false
  | .started, p => p.initialized = true ∧ p.rilStarted = true ∧ p.rejected = false
  | .rejected, p => p.rejected = true
  | .reporting, _ | .muxReady, _ => False

/-- The property may be written at any time after the start. -/
def anytime (property : Property) (value : Value) : Prop :=
  (property = .modemException ∧ value = .one) ∨ property = .atciUnavailable ∨
    property = .reportCase ∨ property = .report

/-- The writes in turn. -/
theorem after_cases {stage stage' : Stage} {property : Property} {value : Value}
    (h : stage.after property value = some stage') :
    (stage = .fresh ∧ property = .reporterRunning ∧ value = .zero ∧ stage' = .reporting) ∨
    (stage = .reporting ∧ property = .modemException ∧ value = .zero ∧ stage' = .initialized) ∨
    (stage = .initialized ∧ property = .muxReady ∧ value = .one ∧ stage' = .muxReady) ∨
    (stage = .muxReady ∧ property = .rilReady ∧ value = .one ∧ stage' = .started) ∨
    (stage = .started ∧ property = .rilRestart ∧ value = .one ∧ stage' = .started) ∨
    ((stage = .initialized ∨ stage = .started) ∧ anytime property value ∧ stage' = stage) := by
  unfold after at h
  split at h
  · simp_all
  · simp_all
  · simp_all
  · simp_all
  · simp_all
  · split at h
    · rename_i hturn
      obtain ⟨hstage, hwrite⟩ := hturn
      have hany : anytime property value := by
        rcases hwrite with hw | hw | hw | hw
        · exact .inl hw
        · exact .inr (.inl hw.1)
        · exact .inr (.inr (.inl hw.1))
        · exact .inr (.inr (.inr hw.1))
      cases h
      exact .inr (.inr (.inr (.inr (.inr ⟨hstage, hany, rfl⟩))))
    · cases h

/-- What a log entry does: a write in turn, accepted or not, or an opening. -/
theorem next_cases {stage stage' : Stage} {entry : Log} (h : stage.next entry = some stage') :
    (∃ property value later accepted, entry = .wrote property value accepted ∧
      stage.after property value = some later ∧ stage' = if accepted then later else .rejected) ∨
    (entry = .opened ∧ (stage = .initialized ∨ stage = .started) ∧ stage' = stage) := by
  cases entry with
  | wrote property value accepted =>
      obtain ⟨later, hlater, hstage⟩ := Option.map_eq_some_iff.mp h
      exact .inl ⟨property, value, later, accepted, rfl, hlater, hstage.symm⟩
  | opened =>
      simp only [next] at h
      split at h
      · rename_i hstage
        exact .inr ⟨rfl, hstage, (Option.some.inj h).symm⟩
      · cases h

end Stage

/-- The log follows the protocol up to a stage. -/
def Follows (log : List Log) (stage : Stage) : Prop :=
  monitor Stage.next .fresh log = some stage

theorem Follows.snoc {log : List Log} {stage stage' : Stage} {entry : Log}
    (h : Follows log stage) (hnext : stage.next entry = some stage') :
    Follows (log ++ [entry]) stage' := by
  unfold Follows at h ⊢
  rw [monitor_snoc, h]
  exact hnext

/-! ### What the protocol says -/

/-- The entry is a write of this property. -/
def Log.writes (property : Property) : Log → Bool
  | .wrote p _ _ => p == property
  | .opened => false

/-- The entry is a write of this value to this property. -/
def Log.sets (property : Property) (value : Value) : Log → Bool
  | .wrote p v _ => p == property && v == value
  | .opened => false

/-- **The published properties**, as a fact about the whole log. -/
structure Announced (log : List Log) : Prop where
  /-- The first two entries clear the reporter and the exception. -/
  first : ∀ {entry rest}, log = entry :: rest →
    (∃ accepted, entry = .wrote .reporterRunning .zero accepted) ∧
      ∀ {entry' rest'}, rest = entry' :: rest' →
        ∃ accepted, entry' = .wrote .modemException .zero accepted
  reporter_once : log.countP (Log.writes .reporterRunning) ≤ 1
  exception_once : log.countP (Log.sets .modemException .zero) ≤ 1
  muxReady_once : log.countP (Log.writes .muxReady) ≤ 1
  rilReady_once : log.countP (Log.writes .rilReady) ≤ 1
  /-- The multiplexer is announced first, with the value one. -/
  muxReady_first : ∀ {before value accepted after},
    log = before ++ .wrote .rilReady value accepted :: after →
      value = .one ∧ .wrote .muxReady .one true ∈ before
  muxReady_one : ∀ {value accepted}, .wrote .muxReady value accepted ∈ log → value = .one
  /-- The interface layer is restarted only after its start was accepted. -/
  restart : ∀ {before value accepted after},
    log = before ++ .wrote .rilRestart value accepted :: after →
      .wrote .rilReady .one true ∈ before
  /-- A rejected write is the last entry: nothing is written or opened after it. -/
  rejected_last : ∀ {before property value after},
    log = before ++ .wrote property value false :: after → after = []

/-- The two first writes are made. -/
def Cleared (log : List Log) : Prop :=
  ∃ accepted rest,
    log = .wrote .reporterRunning .zero true :: .wrote .modemException .zero accepted :: rest

theorem Cleared.snoc {log : List Log} (h : Cleared log) (entry : Log) : Cleared (log ++ [entry]) := by
  obtain ⟨accepted, rest, rfl⟩ := h
  exact ⟨accepted, rest ++ [entry], rfl⟩

/-- How the log begins. -/
def Stage.Opens : Stage → List Log → Prop
  | .fresh, log => log = []
  | .reporting, log => log = [.wrote .reporterRunning .zero true]
  | .rejected, log => log = [.wrote .reporterRunning .zero false] ∨ Cleared log
  | _, log => Cleared log

theorem Follows.opens {log : List Log} {stage : Stage} (h : Follows log stage) :
    stage.Opens log := by
  refine monitor_invariant (I := fun log stage => Stage.Opens stage log) ?_ ?_ h
  · exact Eq.refl []
  intro log stage entry stage' hlog hnext
  rcases Stage.next_cases hnext with
    ⟨property, value, later, accepted, rfl, hafter, rfl⟩ | ⟨rfl, rfl | rfl, rfl⟩
  · -- a rejection may come at any stage, and leaves what is written
    have hend : ∀ {later : Stage}, Cleared log → (∀ log', Cleared log' → later.Opens log') →
        (if accepted then later else .rejected).Opens
          (log ++ [Log.wrote property value accepted]) := by
      intro later hcleared hopens
      cases accepted with
      | true => exact hopens _ (hcleared.snoc _)
      | false => exact .inr (hcleared.snoc _)
    rcases Stage.after_cases hafter with
      ⟨rfl, rfl, rfl, rfl⟩ | ⟨rfl, rfl, rfl, rfl⟩ | ⟨rfl, rfl, rfl, rfl⟩ | ⟨rfl, rfl, rfl, rfl⟩ |
      ⟨rfl, rfl, rfl, rfl⟩ | ⟨rfl | rfl, hany, rfl⟩
    · obtain rfl : log = [] := hlog
      cases accepted with
      | true => exact rfl
      | false => exact .inl rfl
    · obtain rfl : log = [.wrote .reporterRunning .zero true] := hlog
      cases accepted with
      | true => exact ⟨true, [], rfl⟩
      | false => exact .inr ⟨false, [], rfl⟩
    · exact hend hlog fun _ h => h
    · exact hend hlog fun _ h => h
    · exact hend hlog fun _ h => h
    · exact hend hlog fun _ h => h
    · exact hend hlog fun _ h => h
  · exact hlog.snoc _
  · exact hlog.snoc _

/-- The order of the stages. -/
def Stage.rank : Stage → Nat
  | .fresh => 0
  | .reporting => 1
  | .initialized => 2
  | .muxReady => 3
  | .started => 4
  | .rejected => 5

/-- The rank of the stage at which a write that is made once is made. -/
def Log.turn : Log → Option Nat
  | .wrote .reporterRunning _ _ => some 0
  | .wrote .modemException .zero _ => some 1
  | .wrote .muxReady _ _ => some 2
  | .wrote .rilReady _ _ => some 3
  | _ => none

theorem Stage.next_rank {stage stage' : Stage} {entry : Log}
    (hnext : stage.next entry = some stage') :
    stage.rank ≤ stage'.rank ∧ ∀ r, entry.turn = some r → stage.rank = r ∧ r < stage'.rank := by
  rcases next_cases hnext with
    ⟨property, value, later, accepted, rfl, hafter, rfl⟩ | ⟨rfl, -, rfl⟩
  · rcases after_cases hafter with
      ⟨rfl, rfl, rfl, rfl⟩ | ⟨rfl, rfl, rfl, rfl⟩ | ⟨rfl, rfl, rfl, rfl⟩ | ⟨rfl, rfl, rfl, rfl⟩ |
      ⟨rfl, rfl, rfl, rfl⟩ | ⟨hstage, hany, rfl⟩
    case inr.inr.inr.inr.inr =>
      have hturn : Log.turn (.wrote property value accepted) = none := by
        rcases hany with ⟨rfl, rfl⟩ | rfl | rfl | rfl <;> rfl
      rw [hturn]
      refine ⟨?_, by simp⟩
      rcases hstage with rfl | rfl <;> cases accepted <;> decide
    all_goals cases accepted <;> simp [rank, Log.turn]
  · exact ⟨Nat.le_refl _, by simp [Log.turn]⟩

/-- A write with a turn of its own is made at most once. -/
theorem Follows.once {log : List Log} {stage : Stage} (h : Follows log stage) {p : Log → Bool}
    {r : Nat} (hp : ∀ entry, p entry = true → entry.turn = some r) : log.countP p ≤ 1 := by
  refine monitor_once (A := fun stage => stage.rank ≤ r) ?_ ?_ h
  · intro stage entry stage' hnext hentry
    exact Nat.le_of_eq ((Stage.next_rank hnext).2 r (hp entry hentry)).1
  · intro stage entry stage' hnext hA
    obtain ⟨hle, hturn⟩ := Stage.next_rank hnext
    refine ⟨Nat.le_trans hle hA, Bool.eq_false_iff.mpr fun hentry => ?_⟩
    exact absurd hA (Nat.not_le.mpr (hturn r (hp entry hentry)).2)

/-- The write at an entry of the log was in turn. -/
theorem Follows.split {log before after : List Log} {stage : Stage} {property : Property}
    {value : Value} {accepted : Bool} (h : Follows log stage)
    (heq : log = before ++ .wrote property value accepted :: after) :
    ∃ earlier later, Follows before earlier ∧ earlier.after property value = some later ∧
      monitor Stage.next (if accepted then later else .rejected) after = some stage := by
  subst heq
  obtain ⟨earlier, next, hbefore, hnext, hafter⟩ := monitor_split h
  obtain ⟨later, hlater, rfl⟩ := Option.map_eq_some_iff.mp hnext
  exact ⟨earlier, later, hbefore, hlater, hafter⟩

/-- The stages behind an announcement are entered by it only. -/
theorem Stage.next_enters {stage stage' : Stage} {entry : Log}
    (hnext : stage.next entry = some stage') (hne : stage ≠ stage') :
    (stage' = .muxReady → entry = .wrote .muxReady .one true) ∧
      (stage' = .started → entry = .wrote .rilReady .one true) := by
  rcases next_cases hnext with
    ⟨property, value, later, accepted, rfl, hafter, rfl⟩ | ⟨-, -, rfl⟩
  · cases accepted with
    | false => exact ⟨by simp, by simp⟩
    | true =>
        rcases after_cases hafter with
          ⟨rfl, rfl, rfl, rfl⟩ | ⟨rfl, rfl, rfl, rfl⟩ | ⟨rfl, rfl, rfl, rfl⟩ |
          ⟨rfl, rfl, rfl, rfl⟩ | ⟨rfl, rfl, rfl, rfl⟩ | ⟨hboth, hany, rfl⟩
        · exact ⟨by simp, by simp⟩
        · exact ⟨by simp, by simp⟩
        · exact ⟨fun _ => rfl, by simp⟩
        · exact ⟨by simp, fun _ => rfl⟩
        · exact absurd rfl hne
        · exact absurd rfl hne
  · exact absurd rfl hne

theorem Follows.mem_muxReady {log : List Log} (h : Follows log .muxReady) :
    .wrote .muxReady .one true ∈ log := by
  refine monitor_mem (B := (· = Stage.muxReady)) (by simp) ?_ h rfl
  rintro stage entry stage' hnext hstage
  by_cases hne : stage = stage'
  · exact .inl (hne.trans hstage)
  · exact .inr ((Stage.next_enters hnext hne).1 hstage)

theorem Follows.mem_rilReady {log : List Log} (h : Follows log .started) :
    .wrote .rilReady .one true ∈ log := by
  refine monitor_mem (B := (· = Stage.started)) (by simp) ?_ h rfl
  rintro stage entry stage' hnext hstage
  by_cases hne : stage = stage'
  · exact .inl (hne.trans hstage)
  · exact .inr ((Stage.next_enters hnext hne).2 hstage)

/-- Nothing follows a rejection. -/
theorem monitor_rejected {after : List Log} {stage : Stage}
    (h : monitor Stage.next .rejected after = some stage) : after = [] := by
  cases after with
  | nil => rfl
  | cons entry rest =>
      have hlog : monitor Stage.next .rejected ([] ++ entry :: rest) = some stage := h
      obtain ⟨_, stage', hnil, hnext, -⟩ := monitor_split hlog
      cases hnil
      rcases Stage.next_cases hnext with ⟨property, value, later, -, -, hafter, -⟩ | ⟨-, hstage, -⟩
      · have hcases := Stage.after_cases hafter
        simp at hcases
      · simp at hstage

/-- A rejected write has ended the protocol. -/
theorem Follows.rejected_of_mem {log : List Log} {stage : Stage} {property : Property}
    {value : Value} (h : Follows log stage) (hmem : .wrote property value false ∈ log) :
    stage = .rejected := by
  obtain ⟨before, after, heq⟩ := List.append_of_mem hmem
  obtain ⟨earlier, later, -, -, hafter⟩ := h.split heq
  cases monitor_rejected hafter
  exact (Option.some.inj hafter).symm

/-- **A log that follows the protocol publishes as it should.** -/
theorem Follows.announced {log : List Log} {stage : Stage} (h : Follows log stage) :
    Announced log where
  first {entry rest} heq := by
    subst heq
    -- behind the first write all stages but two begin alike
    have hcleared : Cleared (entry :: rest) →
        (∃ accepted, entry = .wrote .reporterRunning .zero accepted) ∧
          ∀ {entry' rest'}, rest = entry' :: rest' →
            ∃ accepted, entry' = .wrote .modemException .zero accepted := by
      rintro ⟨accepted, later, hlog⟩
      cases hlog
      exact ⟨⟨true, rfl⟩, fun hrest => ⟨accepted, (List.cons.inj hrest).1.symm⟩⟩
    have hopens := h.opens
    cases stage with
    | fresh => cases hopens
    | reporting =>
        cases hopens
        exact ⟨⟨true, rfl⟩, by simp⟩
    -- the first write was refused, or the second one
    | rejected =>
        rcases hopens with hlog | hlog
        · cases hlog
          exact ⟨⟨false, rfl⟩, by simp⟩
        · exact hcleared hlog
    | initialized => exact hcleared hopens
    | muxReady => exact hcleared hopens
    | started => exact hcleared hopens
  -- each flag has a rank, and the ranks only grow
  reporter_once := h.once (r := 0) fun entry hentry => by
    cases entry with
    | opened => cases hentry
    | wrote property value accepted =>
        obtain rfl : property = .reporterRunning := of_decide_eq_true hentry
        rfl
  exception_once := h.once (r := 1) fun entry hentry => by
    cases entry with
    | opened => cases hentry
    | wrote property value accepted =>
        simp only [Log.sets, Bool.and_eq_true, beq_iff_eq] at hentry
        obtain ⟨rfl, rfl⟩ := hentry
        rfl
  muxReady_once := h.once (r := 2) fun entry hentry => by
    cases entry with
    | opened => cases hentry
    | wrote property value accepted =>
        obtain rfl : property = .muxReady := of_decide_eq_true hentry
        rfl
  rilReady_once := h.once (r := 3) fun entry hentry => by
    cases entry with
    | opened => cases hentry
    | wrote property value accepted =>
        obtain rfl : property = .rilReady := of_decide_eq_true hentry
        rfl
  -- the stage in front of a write is the one that allows it
  muxReady_first heq := by
    obtain ⟨earlier, later, hbefore, hlater, -⟩ := h.split heq
    have hcases := Stage.after_cases hlater
    simp only [reduceCtorEq, false_and, and_false, true_and, false_or, Stage.anytime,
      or_false] at hcases
    obtain ⟨rfl, rfl, -⟩ := hcases
    exact ⟨rfl, hbefore.mem_muxReady⟩
  muxReady_one hmem := by
    obtain ⟨before, after, heq⟩ := List.append_of_mem hmem
    obtain ⟨earlier, later, -, hlater, -⟩ := h.split heq
    have hcases := Stage.after_cases hlater
    simp only [reduceCtorEq, false_and, and_false, true_and, false_or, Stage.anytime,
      or_false] at hcases
    exact hcases.2.1
  restart heq := by
    obtain ⟨earlier, later, hbefore, hlater, -⟩ := h.split heq
    have hcases := Stage.after_cases hlater
    simp only [reduceCtorEq, false_and, and_false, true_and, false_or, Stage.anytime,
      or_false] at hcases
    obtain ⟨rfl, -⟩ := hcases
    exact hbefore.mem_rilReady
  rejected_last heq := by
    obtain ⟨earlier, later, -, -, hafter⟩ := h.split heq
    exact monitor_rejected hafter

/-! ### Operations on the host -/

variable {E ω : Type}

/-- The publication is where the log is. -/
def Host.Sound (h : Host ω) : Prop :=
  ∃ stage : Stage, Follows h.log stage ∧ stage.Agrees h.publication

/-- The log grows, and the interface layer is restarted only if that is asked for. -/
structure Extends (h h' : Host ω) : Prop where
  log : ∃ added, h'.log = h.log ++ added ∧
    ((∃ entry ∈ added, entry.writes .rilRestart = true) → h.publication.restartRil = true)
  restartRil : h'.publication.restartRil = h.publication.restartRil

theorem Extends.refl (h : Host ω) : Extends h h := ⟨⟨[], by simp, by simp⟩, rfl⟩

theorem Extends.trans {h₁ h₂ h₃ : Host ω} (h : Extends h₁ h₂) (h' : Extends h₂ h₃) :
    Extends h₁ h₃ := by
  obtain ⟨⟨added, hlog, honly⟩, hsame⟩ := h
  obtain ⟨⟨added', hlog', honly'⟩, hsame'⟩ := h'
  refine ⟨⟨added ++ added', by rw [hlog', hlog, List.append_assoc], ?_⟩, hsame'.trans hsame⟩
  rintro ⟨entry, hmem, hentry⟩
  rcases List.mem_append.mp hmem with hmem | hmem
  · exact honly ⟨entry, hmem, hentry⟩
  · exact hsame ▸ honly' ⟨entry, hmem, hentry⟩

/-- Only the world changes. -/
structure Calm (h h' : Host ω) : Prop where
  publication : h'.publication = h.publication
  log : h'.log = h.log

namespace Calm

variable {h h' h'' : Host ω}

theorem refl (h : Host ω) : Calm h h := ⟨rfl, rfl⟩

theorem trans (hcalm : Calm h h') (hcalm' : Calm h' h'') : Calm h h'' :=
  ⟨hcalm'.publication.trans hcalm.publication, hcalm'.log.trans hcalm.log⟩

theorem sound (hcalm : Calm h h') (hsound : h.Sound) : h'.Sound := by
  unfold Host.Sound
  rw [hcalm.publication, hcalm.log]
  exact hsound

theorem grows (hcalm : Calm h h') : Extends h h' :=
  ⟨⟨[], by rw [hcalm.log, List.append_nil], by simp⟩, by rw [hcalm.publication]⟩

theorem rejected (hcalm : Calm h h') : h'.publication.rejected = h.publication.rejected := by
  rw [hcalm.publication]

theorem lift {α : Type} (f : ω → α × ω) (h : Host ω) : Calm h (h.lift f).2 := ⟨rfl, rfl⟩

end Calm

/-- What writes in turn leave behind: `stage` if they were all accepted. -/
structure Wrote (h : Host ω) (stage : Stage) (result : Bool × Host ω) : Prop where
  follows : Follows result.2.log (if result.1 then stage else .rejected)
  publication : result.2.publication =
    if result.1 then h.publication else { h.publication with rejected := true }
  grows : Extends h result.2

section Writes

variable (outside : Outside E ω) {h : Host ω} {stage stage' stage'' : Stage}

/-- **One property is written**, as the protocol has it. -/
theorem Host.set_wrote {property : Property} {value : Value} (hlog : Follows h.log stage)
    (hafter : stage.after property value = some stage') (hopen : h.publication.rejected = false)
    (honly : property = .rilRestart → h.publication.restartRil = true) :
    Wrote h stage' (h.set outside property value) := by
  have hnext : ∀ accepted, stage.next (.wrote property value accepted) =
      some (if accepted then stage' else .rejected) := by
    intro accepted
    simp only [Stage.next, hafter, Option.map_some]
  have hgrows : ∀ accepted w (p : Publication), p.restartRil = h.publication.restartRil →
      Extends h ⟨w, p, h.log ++ [Log.wrote property value accepted]⟩ := by
    intro accepted w p hp
    refine ⟨⟨_, rfl, ?_⟩, hp⟩
    rintro ⟨entry, hmem, hentry⟩
    rw [List.mem_singleton.mp hmem] at hentry
    exact honly (of_decide_eq_true hentry)
  unfold Host.set
  rw [if_neg (by simp [hopen])]
  dsimp only
  cases (outside.set property value h.world).1 with
  | true => exact ⟨hlog.snoc (hnext true), rfl, hgrows true _ _ rfl⟩
  | false => exact ⟨hlog.snoc (hnext false), rfl, hgrows false _ _ rfl⟩

theorem Host.setBoth_wrote {first second : Property × Value} (hlog : Follows h.log stage)
    (hfirst : stage.after first.1 first.2 = some stage')
    (hsecond : stage'.after second.1 second.2 = some stage'')
    (hopen : h.publication.rejected = false) (honly : first.1 ≠ .rilRestart)
    (honly' : second.1 ≠ .rilRestart) : Wrote h stage'' (h.setBoth outside first second) := by
  obtain ⟨hfollows, hpublication, hgrows⟩ :=
    Host.set_wrote outside hlog hfirst hopen fun heq => absurd heq honly
  unfold Host.setBoth
  dsimp only
  cases haccepted : (h.set outside first.1 first.2).1 with
  | false =>
      rw [haccepted] at hfollows hpublication
      exact ⟨hfollows, hpublication, hgrows⟩
  | true =>
      rw [haccepted] at hfollows hpublication
      rw [if_pos rfl] at hfollows hpublication
      have hwrote := Host.set_wrote outside hfollows hsecond (by rw [hpublication]; exact hopen)
        fun heq => absurd heq honly'
      refine ⟨hwrote.follows, ?_, hgrows.trans hwrote.grows⟩
      rw [if_pos rfl, hwrote.publication, hpublication]

theorem Host.setBoth_rejected (first second : Property × Value)
    (hrejected : h.publication.rejected = true) : h.setBoth outside first second = (false, h) := by
  simp [Host.setBoth, Host.set, hrejected]

/-- What an operation of the publication leaves behind. -/
structure Outcome (h : Host ω) (result : Bool × Host ω) : Prop where
  sound : result.2.Sound
  grows : Extends h result.2
  accepted : result.1 = true → result.2.publication.rejected = false

theorem Outcome.same (hsound : h.Sound) {accepted : Bool}
    (haccepted : accepted = true → h.publication.rejected = false) :
    Outcome h (accepted, h) := ⟨hsound, Extends.refl h, haccepted⟩

/-- Writes after which the publication agrees with the stage reached. -/
theorem Wrote.outcome {result : Bool × Host ω} (hwrote : Wrote h stage result)
    (hagrees : stage.Agrees h.publication) (hopen : h.publication.rejected = false) :
    Outcome h result := by
  obtain ⟨hfollows, hpublication, hgrows⟩ := hwrote
  cases haccepted : result.1 with
  | true =>
      rw [haccepted, if_pos rfl] at hfollows hpublication
      refine ⟨⟨stage, hfollows, hpublication ▸ hagrees⟩, hgrows, fun _ => ?_⟩
      rw [hpublication]
      exact hopen
  | false =>
      rw [haccepted, if_neg (by simp)] at hfollows hpublication
      refine ⟨⟨.rejected, hfollows, ?_⟩, hgrows, by simp [haccepted]⟩
      rw [hpublication]
      exact rfl

/-- Both writes, and then a note of it in the publication. -/
theorem Wrote.noted {result : Bool × Host ω} (hwrote : Wrote h stage result)
    {f : Publication → Publication} (hf : ∀ p, (f p).restartRil = p.restartRil)
    (hagrees : stage.Agrees (f h.publication)) (hopen : (f h.publication).rejected = false) :
    Outcome h (if result.1 then (true, { result.2 with publication := f result.2.publication })
      else (false, result.2)) := by
  obtain ⟨hfollows, hpublication, hgrows⟩ := hwrote
  cases haccepted : result.1 with
  | true =>
      rw [haccepted, if_pos rfl] at hfollows hpublication
      rw [if_pos rfl, hpublication]
      exact ⟨⟨stage, hfollows, hagrees⟩, ⟨hgrows.log, hf _⟩, fun _ => hopen⟩
  | false =>
      rw [haccepted, if_neg (by simp)] at hfollows hpublication
      refine ⟨⟨.rejected, hfollows, ?_⟩, hgrows, by simp⟩
      rw [if_neg (by simp), hpublication]
      exact rfl

/-- The properties are initialised. -/
theorem Host.initializeProperties_outcome (hsound : h.Sound) :
    Outcome h (h.initializeProperties outside) := by
  obtain ⟨stage, hlog, hagrees⟩ := hsound
  have hsound : h.Sound := ⟨stage, hlog, hagrees⟩
  unfold Host.initializeProperties
  cases hinit : h.publication.initialized with
  | true => exact .same hsound (by simp)
  | false =>
      rw [if_neg (by simp)]
      dsimp only
      cases stage with
      | fresh =>
          obtain ⟨-, hril, hopen⟩ := hagrees
          have hwrote : Wrote h .initialized
              (h.setBoth outside (.reporterRunning, .zero) (.modemException, .zero)) :=
            Host.setBoth_wrote outside hlog rfl rfl hopen (by simp) (by simp)
          exact hwrote.noted (f := fun p => { p with initialized := true }) (fun _ => rfl)
            ⟨rfl, hril, hopen⟩ hopen
      | rejected =>
          rw [Host.setBoth_rejected outside _ _ hagrees]
          exact .same hsound (by simp)
      | initialized => simp [Stage.Agrees, hinit] at hagrees
      | started => simp [Stage.Agrees, hinit] at hagrees
      | reporting => exact hagrees.elim
      | muxReady => exact hagrees.elim

/-- A request for recovery. -/
theorem Host.recover_outcome (hsound : h.Sound) {value : Value} (hvalue : value ≠ .zero) :
    Outcome h (h.recover outside value) := by
  obtain ⟨stage, hlog, hagrees⟩ := hsound
  have hsound : h.Sound := ⟨stage, hlog, hagrees⟩
  unfold Host.recover
  cases hinit : h.publication.initialized with
  | false => exact .same hsound (by simp)
  | true =>
      rw [if_pos rfl]
      have hreport : ∀ stage : Stage, stage = .initialized ∨ stage = .started →
          stage.after .reportCase value = some stage ∧ stage.after .report .one = some stage := by
        rintro stage (rfl | rfl) <;> cases value <;> simp_all [Stage.after]
      cases stage with
      | initialized =>
          obtain ⟨hcase, hone⟩ := hreport .initialized (.inl rfl)
          exact (Host.setBoth_wrote outside hlog hcase hone hagrees.2.2 (by simp)
            (by simp)).outcome hagrees hagrees.2.2
      | started =>
          obtain ⟨hcase, hone⟩ := hreport .started (.inr rfl)
          exact (Host.setBoth_wrote outside hlog hcase hone hagrees.2.2 (by simp)
            (by simp)).outcome hagrees hagrees.2.2
      | rejected =>
          rw [Host.setBoth_rejected outside _ _ hagrees]
          exact .same hsound (by simp)
      | fresh => simp [Stage.Agrees, hinit] at hagrees
      | reporting => exact hagrees.elim
      | muxReady => exact hagrees.elim

/-- **An effect of the runtime**, or of the service itself. -/
theorem Host.apply_outcome (hsound : h.Sound) (event : Runtime.Event) :
    Outcome h (h.apply outside event) := by
  obtain ⟨stage, hlog, hagrees⟩ := hsound
  have hsound : h.Sound := ⟨stage, hlog, hagrees⟩
  unfold Host.apply
  split
  · exact .same hsound (by simp)
  rename_i hguard
  simp only [Bool.or_eq_true, Bool.not_eq_true', not_or, Bool.not_eq_false,
    Bool.not_eq_true] at hguard
  obtain ⟨hinit, hopen⟩ := hguard
  -- One property is written, and the stage stays.
  have hone : ∀ {stage : Stage} {property : Property}, Follows h.log stage →
      stage.Agrees h.publication → stage.after property .one = some stage →
      property ≠ .rilRestart → Outcome h (h.set outside property .one) := by
    intro stage property hlog hagrees hafter honly
    exact (Host.set_wrote outside hlog hafter hopen fun heq => absurd heq honly).outcome hagrees hopen
  -- Only two stages listen to the runtime.
  cases stage with
  | initialized =>
      cases event with
      | ready refusedChannels =>
          -- The first `ready` starts the daemon.
          simp only [Host.ready, hagrees.2.1]
          have hwrote : Wrote h .started
              (h.setBoth outside (.muxReady, .one) (.rilReady, .one)) :=
            Host.setBoth_wrote outside hlog rfl rfl hopen (by simp) (by simp)
          exact hwrote.noted (f := fun p => { p with rilStarted := true }) (fun _ => rfl)
            ⟨hinit, rfl, hopen⟩ hopen
      | atciUnavailable => exact hone hlog hagrees rfl (by simp)
      | modemException => exact hone hlog hagrees rfl (by simp)
  | started =>
      cases event with
      | ready refusedChannels =>
          simp only [Host.ready, hagrees.2.1, if_true]
          split
          · rename_i hrestart
            exact (Host.set_wrote outside hlog rfl hopen fun _ => hrestart).outcome hagrees hopen
          · exact .same hsound fun _ => hopen
      | atciUnavailable => exact hone hlog hagrees rfl (by simp)
      | modemException => exact hone hlog hagrees rfl (by simp)
  | fresh => simp [Stage.Agrees, hinit] at hagrees
  | rejected => simp [Stage.Agrees, hopen] at hagrees
  | reporting => exact hagrees.elim
  | muxReady => exact hagrees.elim

end Writes

/-! ### A turn of the runtime -/

section Turns

variable (outside : Outside E ω)

/-- **A rejected effect fails the runtime**; until then the effects follow the protocol. -/
theorem heeded_env (h₀ : Host ω) : Runtime.Heeded outside.env
    (fun h _ => (h.Sound ∧ Extends h₀ h) ∧ h.publication.rejected = false)
    fun h _ => h.Sound ∧ Extends h₀ h where
  weaken hK := hK.1
  prepare hK := ⟨⟨hK.1.1, hK.1.2.trans (Calm.lift _ _).grows⟩, hK.2⟩
  openEndpoint hK := ⟨⟨hK.1.1, hK.1.2.trans (Calm.lift _ _).grows⟩, hK.2⟩
  epochsTaken hK := ⟨⟨hK.1.1, hK.1.2.trans (Calm.lift _ _).grows⟩, hK.2⟩
  read hK := ⟨⟨hK.1.1, hK.1.2.trans (Calm.lift _ _).grows⟩, hK.2⟩
  write hK := ⟨⟨hK.1.1, hK.1.2.trans (Calm.lift _ _).grows⟩, hK.2⟩
  accepted {event h _} hK haccepted := by
    have houtcome := Host.apply_outcome outside hK.1.1 event
    exact ⟨⟨houtcome.sound, hK.1.2.trans houtcome.grows⟩, houtcome.accepted haccepted⟩
  rejected {event h _} hK _ := by
    have houtcome := Host.apply_outcome outside hK.1.1 event
    exact ⟨houtcome.sound, hK.1.2.trans houtcome.grows⟩

variable {h : Host ω}

theorem drive_host {r : Runtime E (Host ω)} (now : Nat) (events : List Runtime.Ready)
    (limits : Runtime.Limits) (hsound : r.context.world.Sound)
    (hopen : r.context.world.publication.rejected = false) :
    let result := Runtime.drive outside.env r now events limits
    result.2.context.world.Sound ∧ Extends r.context.world result.2.context.world ∧
      (result.2.context.world.publication.rejected = true → result.1.state = .failed) := by
  intro result
  have henv := heeded_env outside r.context.world
  have hlater : ∀ {h : Host ω} {e : Nat},
      (h.Sound ∧ Extends r.context.world h) ∧ h.publication.rejected = false → e ≤ now →
      (h.Sound ∧ Extends r.context.world h) ∧ h.publication.rejected = false := fun hK _ => hK
  obtain ⟨hkept, ⟨hsound', hgrows⟩, -⟩ :=
    henv.drive henv hlater events limits ⟨⟨hsound, Extends.refl _⟩, hopen⟩
  refine ⟨hsound', hgrows, fun hrejected => ?_⟩
  by_contra hstate
  have hafter := hkept fun hfailed => hstate ((Runtime.drive_report_state _ _ _ _ _).trans hfailed)
  rw [ite_self] at hafter
  exact Bool.false_ne_true (hafter.2.symm.trans hrejected)

theorem waitReady_calm (interests : List Runtime.Interest) (now : Nat) (deadline : Option Nat)
    (maximum : Nat) (h : Host ω) :
    Calm h (waitReady outside interests now deadline maximum h).2 := by
  unfold waitReady
  split
  · exact Calm.refl h
  dsimp only
  have hpolled := Calm.lift
    (outside.poll interests (deadline.elim maximum fun due => min maximum (due - now))) h
  split
  · rename_i h' hpoll
    rw [hpoll] at hpolled
    exact hpolled
  · rename_i h' hpoll
    rw [hpoll] at hpolled
    exact hpolled
  · rename_i masks h' hpoll
    rw [hpoll] at hpolled
    exact hpolled

/-- **A step of the driver.** A rejected effect is reported as a failure. -/
theorem Driver.step_host (driver : Driver E ω) (maximum : Nat) (limits : Runtime.Limits)
    (hsound : h.Sound) (hopen : h.publication.rejected = false) :
    let result := driver.step outside maximum limits h
    result.2.2.1.Sound ∧ Extends h result.2.2.1 ∧
      (result.2.2.1.publication.rejected = true →
        ∃ report, result.1 = some report ∧ report.state = .failed) := by
  have hturn : ∀ (h' : Host ω) instant now events, Calm h h' →
      let result := driver.turn outside instant now events limits h'
      result.2.2.1.Sound ∧ Extends h result.2.2.1 ∧
        (result.2.2.1.publication.rejected = true →
          ∃ report, some result.1 = some report ∧ report.state = .failed) := by
    intro h' instant now events hcalm
    obtain ⟨hafter, hgrows, hreport⟩ := drive_host outside
      (r := { driver.runtime with context := { driver.runtime.context with world := h' } })
      now events limits (hcalm.sound hsound) (hcalm.rejected.trans hopen)
    exact ⟨hafter, hcalm.grows.trans hgrows, fun hrejected => ⟨_, rfl, hreport hrejected⟩⟩
  -- without a turn nothing is published
  have hquiet : ∀ {h' : Host ω}, Calm h h' → h'.Sound ∧ Extends h h' ∧
      (h'.publication.rejected = true →
        ∃ report, (none : Option Runtime.Report) = some report ∧ report.state = .failed) := by
    intro h' hcalm
    refine ⟨hcalm.sound hsound, hcalm.grows, fun hrejected => ?_⟩
    rw [hcalm.rejected, hopen] at hrejected
    cases hrejected
  have hclock : ∀ h : Host ω, Calm h (driver.now outside h).2 := fun h => Calm.lift _ h
  unfold Driver.step
  dsimp only
  have hcalm₁ := hclock h
  split
  · rename_i h₁ hnow
    rw [hnow] at hcalm₁
    exact hquiet hcalm₁
  rename_i now h₁ hnow
  rw [hnow] at hcalm₁
  split
  · exact hturn h₁ _ now [] hcalm₁
  have hcalm₂ := hcalm₁.trans (waitReady_calm outside driver.runtime.interests now
    driver.runtime.nextDeadline maximum h₁)
  split
  · rename_i h₂ hwait
    rw [hwait] at hcalm₂
    exact hquiet hcalm₂
  rename_i events h₂ hwait
  rw [hwait] at hcalm₂
  have hcalm₃ := hcalm₂.trans (hclock h₂)
  split
  · rename_i h₃ hnow'
    rw [hnow'] at hcalm₃
    exact hquiet hcalm₃
  · rename_i now' h₃ hnow'
    rw [hnow'] at hcalm₃
    exact hturn h₃ _ now' events hcalm₃

end Turns

/-! ### The service -/

/-- A service that has published as it should since `h`. -/
structure Since (h : Host ω) (daemon : Option (Int × Int)) (s : Service E ω) : Prop where
  sound : s.host.Sound
  grows : Extends h s.host
  daemon : s.daemon = daemon

/-- Nothing was rejected yet. -/
structure Going (h : Host ω) (daemon : Option (Int × Int)) (s : Service E ω) : Prop
    extends Since h daemon s where
  isOpen : s.host.publication.rejected = false

/-- A rejection has finished the service. -/
structure Settled (h : Host ω) (daemon : Option (Int × Int)) (s : Service E ω) : Prop
    extends Since h daemon s where
  ends : s.host.publication.rejected = true → s.phase = .finished .propertyRejected

section Parts

variable (outside : Outside E ω) {h : Host ω} {daemon : Option (Int × Int)} {s s' : Service E ω}

@[simp] theorem close_host (s : Service E ω) : s.close.host = s.host := by
  unfold close
  split
  · rfl
  · rfl

@[simp] theorem close_daemon (s : Service E ω) : s.close.daemon = s.daemon := by
  unfold close
  split
  · rfl
  · rfl

theorem Since.of_calm (hs : Since h daemon s) (hcalm : Calm s.host s'.host)
    (hdaemon : s'.daemon = s.daemon) : Since h daemon s' :=
  ⟨hcalm.sound hs.sound, hs.grows.trans hcalm.grows, hdaemon.trans hs.daemon⟩

theorem Going.of_calm (hs : Going h daemon s) (hcalm : Calm s.host s'.host)
    (hdaemon : s'.daemon = s.daemon) : Going h daemon s' :=
  ⟨hs.toSince.of_calm hcalm hdaemon, hcalm.rejected.trans hs.isOpen⟩

theorem close_calm (s : Service E ω) : Calm s.host s.close.host := by
  rw [close_host]
  exact Calm.refl _

theorem Going.close (hs : Going h daemon s) : Going h daemon s.close :=
  hs.of_calm (close_calm s) (close_daemon s)

theorem Going.settled (hs : Going h daemon s) : Settled h daemon s := by
  refine ⟨hs.toSince, fun hrejected => ?_⟩
  rw [hs.isOpen] at hrejected
  cases hrejected

theorem Going.finish (hs : Going h daemon s) (exit : Exit) : Settled h daemon (s.finish exit) :=
  Going.settled (hs.of_calm (close_calm s) (close_daemon s))

theorem Since.reject (hs : Since h daemon s) : Settled h daemon (s.finish .propertyRejected) :=
  ⟨hs.of_calm (close_calm s) (close_daemon s), fun _ => rfl⟩

/-- An operation of the publication, performed by the service. -/
theorem Going.outcome (hs : Going h daemon s) {result : Bool × Host ω}
    (houtcome : Outcome s.host result) :
    Since h daemon { s with host := result.2 } ∧
      (result.1 = true → Going h daemon { s with host := result.2 }) := by
  have hsince : Since h daemon { s with host := result.2 } :=
    ⟨houtcome.sound, hs.grows.trans houtcome.grows, hs.daemon⟩
  exact ⟨hsince, fun haccepted => ⟨hsince, houtcome.accepted haccepted⟩⟩

/-- The clock is read: the service goes on, or it is finished. -/
theorem now_spec (s : Service E ω) :
    Calm s.host (s.now outside).2.host ∧ (s.now outside).2.daemon = s.daemon ∧
      match (s.now outside).1 with
      | none => (s.now outside).2.phase = .finished .internalFailure
      | some now => (s.now outside).2 = { s with host := (s.now outside).2.host, lastNow := now } := by
  unfold Service.now
  dsimp only [Host.lift]
  have hfinish : ∀ w, Calm s.host (({ s with host := ⟨w, s.host.publication, s.host.log⟩ } :
      Service E ω).finish .internalFailure).host ∧ (({ s with
        host := ⟨w, s.host.publication, s.host.log⟩ } : Service E ω).finish .internalFailure).daemon
          = s.daemon := by
    intro w
    simp only [finish, close_host, close_daemon]
    exact ⟨⟨rfl, rfl⟩, trivial⟩
  cases (outside.clock s.host.world).1 with
  | none => exact ⟨(hfinish _).1, (hfinish _).2, rfl⟩
  | some now =>
      dsimp only
      split
      · exact ⟨⟨rfl, rfl⟩, rfl, rfl⟩
      · exact ⟨(hfinish _).1, (hfinish _).2, rfl⟩

theorem Going.now_cases (hs : Going h daemon s) :
    (∃ s', s.now outside = (none, s') ∧ Settled h daemon s') ∨
    ∃ now s', s.now outside = (some now, s') ∧ Going h daemon s' ∧ s'.phase = s.phase ∧
      s'.driver = s.driver := by
  obtain ⟨hcalm, hdaemon, hreading⟩ := now_spec outside s
  have hs' : Going h daemon (s.now outside).2 := hs.of_calm hcalm hdaemon
  cases hnow : s.now outside with
  | mk reading s' =>
      rw [hnow] at hs' hreading
      cases reading with
      | none => exact .inl ⟨s', rfl, hs'.settled⟩
      | some now =>
          dsimp only at hreading
          exact .inr ⟨now, s', rfl, hs', by rw [hreading], by rw [hreading]⟩

/-- The first report. -/
theorem Going.recovery (hs : Going h daemon s) (now : Nat) :
    Settled h daemon (s.recovery outside now) := by
  unfold Service.recovery
  dsimp only
  split
  · exact hs.close.finish _
  obtain ⟨hsince, hgoing⟩ := hs.close.outcome
    (Host.recover_outcome outside hs.close.sound (by simp : Value.one ≠ .zero))
  split
  · rename_i haccepted
    rcases (hgoing haccepted).now_cases outside with ⟨s', hnow, hs'⟩ | ⟨now', s', hnow, hs', -, -⟩
    · rw [hnow]
      exact hs'
    · rw [hnow]
      dsimp only
      split
      · exact hs'.finish _
      · exact Going.settled (hs'.of_calm (Calm.refl _) rfl)
  · exact hsince.reject

/-- The runtime has failed. -/
theorem Since.failed (hs : Since h daemon s) (now : Nat) (error : Runtime.Error) :
    Settled h daemon (s.failed outside now error) := by
  unfold Service.failed
  dsimp only
  have hs' : Since h daemon ({ s with runtimeError := some error }.close) :=
    hs.of_calm (close_calm { s with runtimeError := some error }) (close_daemon _)
  split
  · exact hs'.reject
  rename_i hopen
  have hgoing : Going h daemon ({ s with runtimeError := some error }.close) :=
    ⟨hs', Bool.eq_false_iff.mpr hopen⟩
  split
  · obtain ⟨hsince, haccepted⟩ := hgoing.outcome
      (Host.apply_outcome outside hs'.sound .modemException)
    split
    · rename_i hyes
      exact (haccepted hyes).finish _
    · exact hsince.reject
  split
  · exact hgoing.finish _
  split
  · exact hgoing.finish _
  · exact hgoing.recovery outside now

theorem Going.newDriver (hs : Going h daemon s) (serial : E) (channels : List ChannelConfig) :
    Going h daemon (s.newDriver outside serial channels).2 := by
  have hs' : Going h daemon { s with host := (s.host.lift outside.instant).2 } :=
    hs.of_calm (Calm.lift _ _) rfl
  have hmade := ((heeded_env outside h).new serial channels
    ({ s with host := (s.host.lift outside.instant).2 } : Service E ω).chatConfig
    0 s.generation s.nextWrite ⟨⟨hs'.sound, hs'.grows⟩, hs'.isOpen⟩).1
  unfold Service.newDriver
  dsimp only
  split
  · rename_i error host hnew
    rw [hnew] at hmade
    exact ⟨⟨hmade.1.1, hmade.1.2, hs.daemon⟩, hmade.2⟩
  · rename_i runtime host hnew
    rw [hnew] at hmade
    exact ⟨⟨hmade.1.1, hmade.1.2, hs.daemon⟩, hmade.2⟩

/-- The entry of an opening. -/
theorem Going.opened (hs : Going h daemon s) (hinit : s.host.publication.initialized = true) :
    Going h daemon { s with host := { s.host with log := s.host.log ++ [Log.opened] } } := by
  obtain ⟨⟨⟨stage, hlog, hagrees⟩, hgrows, hdaemon⟩, hopen⟩ := hs
  have hstage : stage = .initialized ∨ stage = .started := by
    cases stage with
    | initialized => exact .inl rfl
    | started => exact .inr rfl
    | fresh => simp [Stage.Agrees, hinit] at hagrees
    | rejected => simp [Stage.Agrees, hopen] at hagrees
    | reporting => exact hagrees.elim
    | muxReady => exact hagrees.elim
  refine ⟨⟨⟨stage, hlog.snoc (by rw [Stage.next, if_pos hstage]), hagrees⟩, hgrows.trans ?_,
    hdaemon⟩, hopen⟩
  refine ⟨⟨[.opened], rfl, ?_⟩, rfl⟩
  rintro ⟨entry, hmem, hentry⟩
  rw [List.mem_singleton.mp hmem] at hentry
  cases hentry

/-- The properties are cleared before the modem is opened. -/
theorem initializeProperties_initialized {h : Host ω}
    (haccepted : (h.initializeProperties outside).1 = true) :
    (h.initializeProperties outside).2.publication.initialized = true := by
  unfold Host.initializeProperties at haccepted ⊢
  split
  · assumption
  · rename_i hfresh
    rw [if_neg hfresh] at haccepted
    dsimp only at haccepted ⊢
    split
    · rfl
    · rename_i hrejected
      rw [if_neg hrejected] at haccepted
      cases haccepted

/-- The modem is opened. -/
theorem Going.openModem (hs : Going h daemon s) (now : Nat) :
    Settled h daemon (s.openModem outside now) := by
  obtain ⟨hsince, hgoing⟩ :=
    hs.outcome (Host.initializeProperties_outcome outside hs.sound)
  unfold Service.openModem
  dsimp only
  split
  swap
  · exact hsince.reject
  rename_i haccepted
  have hinit := initializeProperties_initialized outside haccepted
  have hs₁ : Going h daemon { s with host := ((s.host.initializeProperties outside).2.lift
      outside.openSerial).2 } := (hgoing haccepted).of_calm (Calm.lift _ _) rfl
  have hs₂ := hs₁.opened hinit
  split
  · exact hs₂.recovery outside now
  rename_i serial channels _
  have hs₃ := hs₂.newDriver outside serial channels
  split
  · rename_i error s' hnew
    rw [hnew] at hs₃
    exact hs₃.toSince.failed outside now error
  · rename_i driver s' hnew
    rw [hnew] at hs₃
    exact Going.settled (hs₃.of_calm (Calm.refl _) rfl)

/-- The report of a turn. -/
theorem Since.observed (hs : Since h daemon s) {report : Runtime.Report}
    (hreport : s.host.publication.rejected = true → report.state = .failed) (now : Nat) :
    Settled h daemon (s.observed outside now report) := by
  have hgoing : report.state ≠ .failed → Going h daemon s := by
    intro hstate
    exact ⟨hs, Bool.eq_false_iff.mpr fun hrejected => hstate (hreport hrejected)⟩
  unfold Service.observed
  cases hstate : report.state with
  | failed => exact hs.failed outside now _
  | closed =>
      have hcooled : ∀ e, Going h daemon ({ s with escalationAfter := e } : Service E ω).close :=
        fun e => Going.close ((hgoing (by simp [hstate])).of_calm (Calm.refl _) rfl)
      dsimp only
      split
      · exact (hcooled _).finish _
      · exact Going.settled ((hcooled _).of_calm (Calm.refl _) rfl)
  | startup => exact (hgoing (by simp [hstate])).settled
  | multiplexing => exact (hgoing (by simp [hstate])).settled
  | peerClosing => exact (hgoing (by simp [hstate])).settled

/-- Waiting for a deadline publishes nothing. -/
theorem Going.waitFor (hs : Going h daemon s) (now deadline maximum : Nat)
    {due : Service E ω → Nat → Service E ω}
    (hdue : ∀ s' now', Going h daemon s' → Settled h daemon (due s' now')) :
    Settled h daemon (s.waitFor outside now deadline maximum due) := by
  unfold Service.waitFor
  dsimp only
  have hcalm : Calm s.host
      (if now < deadline then waitReady outside [] now (some deadline) maximum s.host
        else (some [], s.host)).2 := by
    split
    · exact waitReady_calm outside _ _ _ _ _
    · exact Calm.refl _
  generalize (if now < deadline then waitReady outside [] now (some deadline) maximum s.host
    else (some [], s.host)) = waited at hcalm ⊢
  have hs' : Going h daemon { s with host := waited.2 } := hs.of_calm hcalm rfl
  split
  · exact hs'.finish _
  rcases hs'.now_cases outside with ⟨s', hnow, hs''⟩ | ⟨now', s', hnow, hs'', -, -⟩
  · rw [hnow]
    exact hs''
  · rw [hnow]
    dsimp only
    split
    · exact hdue s' now' hs''
    · exact hs''.settled

theorem Going.reportAgain (hs : Going h daemon s) : Settled h daemon (s.reportAgain outside) := by
  obtain ⟨hsince, hgoing⟩ :=
    hs.outcome (Host.recover_outcome outside hs.sound (by simp : Value.two ≠ .zero))
  unfold Service.reportAgain
  dsimp only
  split
  · rename_i haccepted
    exact (hgoing haccepted).finish _
  · exact hsince.reject

/-- The service after the step of its driver, before it reads the clock. -/
def afterDriver (s : Service E ω) (driver : Driver E ω) (maximum : Nat)
    (limits : Runtime.Limits) : Service E ω :=
  let (_, driver, host, escalations) := driver.step outside maximum limits s.host
  { s with driver := some driver, host, escalations := s.escalations ++ escalations }

/-- What the report of a driver, if it has one, comes to. -/
def heard (s : Service E ω) (now : Nat) : Option Runtime.Report → Service E ω
  | some report => s.observed outside now report
  | none => s.recovery outside now

theorem drive_eq (s : Service E ω) (driver : Driver E ω) (maximum : Nat) (limits : Runtime.Limits) :
    s.drive outside driver maximum limits =
      match (afterDriver outside s driver maximum limits).now outside with
      | (none, s') => s'
      | (some now, s') => s'.heard outside now (driver.step outside maximum limits s.host).1 := by
  unfold Service.drive afterDriver
  obtain ⟨report, driver, host, escalations⟩ := driver.step outside maximum limits s.host
  cases report with
  | none => rfl
  | some report => rfl

/-- **The clock fails behind the driver's step**: there is no reading, or it is behind the
reading before. -/
def ClockFails (s : Service E ω) (maximum : Nat) (limits : Runtime.Limits) : Prop :=
  ∃ now s' driver, s.now outside = (some now, s') ∧ s'.phase = .running ∧
    s'.driver = some driver ∧ ((afterDriver outside s' driver maximum limits).now outside).1 = none

/-- **A step in `Running`.** -/
theorem Going.drive (hs : Going h daemon s) (driver : Driver E ω) (maximum : Nat)
    (limits : Runtime.Limits) :
    Since h daemon (s.drive outside driver maximum limits) ∧
    ((s.drive outside driver maximum limits).host.publication.rejected = true →
      (s.drive outside driver maximum limits).phase = .finished
        (if ((afterDriver outside s driver maximum limits).now outside).1 = none
          then .internalFailure else .propertyRejected)) := by
  -- The driver's step first, then the clock, then what the report asks for.
  obtain ⟨hsound, hgrows, hreport⟩ :=
    Driver.step_host outside driver maximum limits hs.sound hs.isOpen
  have hs' : Since h daemon (afterDriver outside s driver maximum limits) :=
    ⟨hsound, hs.grows.trans hgrows, hs.daemon⟩
  obtain ⟨hcalm, hdaemon, hreading⟩ := now_spec outside (afterDriver outside s driver maximum limits)
  have hs'' := hs'.of_calm hcalm hdaemon
  rw [drive_eq]
  cases hnow : (afterDriver outside s driver maximum limits).now outside with
  | mk reading s' =>
      rw [hnow] at hs'' hreading hcalm
      cases reading with
      -- A clock that goes back is an internal failure.
      | none => exact ⟨hs'', fun _ => hreading⟩
      | some now =>
          -- A rejection shows as a failed report.
          have hreport' : s'.host.publication.rejected = true →
              ∃ report, (driver.step outside maximum limits s.host).1 = some report ∧
                report.state = .failed := fun hrejected => hreport (hcalm.rejected ▸ hrejected)
          have hsettled : Settled h daemon
              (s'.heard outside now (driver.step outside maximum limits s.host).1) := by
            cases hresult : (driver.step outside maximum limits s.host).1 with
            | none =>
                rw [heard]
                refine Going.recovery outside ⟨hs'', Bool.eq_false_iff.mpr fun hrejected => ?_⟩ now
                obtain ⟨report, hsome, -⟩ := hreport' hrejected
                rw [hresult] at hsome
                cases hsome
            | some report =>
                rw [heard]
                refine hs''.observed outside (fun hrejected => ?_) now
                obtain ⟨report', hsome, hstate⟩ := hreport' hrejected
                rw [hresult] at hsome
                cases hsome
                exact hstate
          exact ⟨hsettled.toSince, fun hrejected => hsettled.ends hrejected⟩

/-- How a step ends that starts at `s`. -/
structure Stepped (s : Service E ω) (maximum : Nat) (limits : Runtime.Limits)
    (after : Service E ω) : Prop extends Since s.host s.daemon after where
  ends : after.host.publication.rejected = true →
    (after.phase = .finished .propertyRejected ∧ ¬ ClockFails outside s maximum limits) ∨
    (after.phase = .finished .internalFailure ∧ ClockFails outside s maximum limits)

/-- **A step of the service** settles it, unless the clock fails behind the driver. -/
theorem step_stepped (hsound : s.host.Sound) (hopen : s.host.publication.rejected = false)
    (maximum : Nat) (limits : Runtime.Limits) :
    Stepped outside s maximum limits (s.step outside maximum limits) := by
  generalize hafter : s.step outside maximum limits = after
  have hs : Going s.host s.daemon s := ⟨⟨hsound, Extends.refl _, rfl⟩, hopen⟩
  -- nothing is rejected
  have hgoing : Going s.host s.daemon after → Stepped outside s maximum limits after :=
    fun hafter => ⟨hafter.toSince, fun hrejected =>
      absurd (hafter.isOpen.symm.trans hrejected) Bool.false_ne_true⟩
  -- the driver is not stepped
  have hsettled : Settled s.host s.daemon after → ¬ ClockFails outside s maximum limits →
      Stepped outside s maximum limits after :=
    fun hafter hclock => ⟨hafter.toSince, fun hrejected => .inl ⟨hafter.ends hrejected, hclock⟩⟩
  unfold Service.step at hafter
  split at hafter
  · exact hgoing (hafter ▸ hs)
  split at hafter
  · exact hgoing (hafter ▸ hs.of_calm (close_calm s) (close_daemon s))
  rcases hs.now_cases outside with ⟨s', hnow, hs'⟩ | ⟨now, s', hnow, hs', hphase, hdriver⟩
  · rw [hnow] at hafter
    refine hsettled (hafter ▸ hs') ?_
    rintro ⟨now, s'', driver, hsome, -⟩
    rw [hnow] at hsome
    cases hsome
  rw [hnow] at hafter
  dsimp only at hafter
  have hclock : s'.phase ≠ .running → ¬ ClockFails outside s maximum limits := by
    rintro hne ⟨now', s'', driver, hsome, hrunning, -⟩
    rw [hnow] at hsome
    cases hsome
    exact hne hrunning
  cases hp : s'.phase with
  | starting =>
      rw [hp] at hafter hclock
      exact hsettled (hafter ▸ hs'.openModem outside now) (hclock (by simp))
  | restarting deadline =>
      rw [hp] at hafter hclock
      refine hsettled (hafter ▸ ?_) (hclock (by simp))
      exact hs'.waitFor outside now deadline maximum fun _ now' hs'' => hs''.openModem outside now'
  | recovering deadline =>
      rw [hp] at hafter hclock
      refine hsettled (hafter ▸ ?_) (hclock (by simp))
      exact hs'.waitFor outside now deadline maximum fun _ _ hs'' => hs''.reportAgain outside
  | finished exit =>
      rw [hp] at hafter
      exact hgoing (hafter ▸ hs')
  | running =>
      rw [hp] at hafter
      cases hd : s'.driver with
      | none =>
          rw [hd] at hafter
          exact hgoing (hafter ▸ hs')
      | some driver =>
          rw [hd] at hafter
          dsimp only at hafter
          subst hafter
          obtain ⟨hsince, hends⟩ := hs'.drive outside driver maximum limits
          refine ⟨hsince, fun hrejected => ?_⟩
          have hend := hends hrejected
          split at hend
          · rename_i hfails
            exact .inr ⟨hend, now, s', driver, hnow, hp, hd, hfails⟩
          · rename_i hfails
            refine .inl ⟨hend, ?_⟩
            rintro ⟨now', s'', driver', hsome, -, hdriver', hfails'⟩
            rw [hnow] at hsome
            cases hsome
            rw [hd] at hdriver'
            cases hdriver'
            exact hfails hfails'

end Parts

/-! ### Runs -/

section Runs

variable {outside : Outside E ω} {s : Service E ω}

/-- The invariant of a service. -/
structure Publishes (s : Service E ω) : Prop where
  sound : s.host.Sound
  restartRil : s.host.publication.restartRil = s.daemon.isSome
  ends : s.host.publication.rejected = true →
    s.phase = .finished .propertyRejected ∨ s.phase = .finished .internalFailure

theorem new_publishes {config : Config} {w : ω} {generation nextWrite : Nat}
    (h : new outside config w generation nextWrite = some s) : Publishes s := by
  unfold new at h
  split at h
  · cases h
    exact ⟨⟨.fresh, rfl, rfl, rfl, rfl⟩, rfl, by simp⟩
  · cases h

/-- A finished service does nothing. -/
theorem step_finished (hfinished : s.phase.isFinished = true) (maximum : Nat)
    (limits : Runtime.Limits) : s.step outside maximum limits = s := by
  unfold Service.step
  rw [if_pos hfinished]

theorem stop_host (s : Service E ω) : s.stop.host = s.host ∧ s.stop.daemon = s.daemon := by
  unfold stop
  split
  · exact ⟨rfl, rfl⟩
  · exact ⟨close_host s, close_daemon s⟩

theorem daemonMode_sound (hsound : s.host.Sound) (baud pin : Int) :
    (s.daemonMode baud pin).host.Sound := by
  obtain ⟨stage, hlog, hagrees⟩ := hsound
  refine ⟨stage, hlog, ?_⟩
  cases stage with
  | fresh => exact hagrees
  | initialized => exact hagrees
  | started => exact hagrees
  | rejected => exact hagrees
  | reporting => exact hagrees
  | muxReady => exact hagrees

/-- Only a finished service has met a rejection. -/
theorem Publishes.isOpen (hs : Publishes s) (hgoing : s.phase.isFinished = false) :
    s.host.publication.rejected = false := by
  refine Bool.eq_false_iff.mpr fun hrejected => ?_
  rcases hs.ends hrejected with hphase | hphase
  · rw [hphase] at hgoing
    cases hgoing
  · rw [hphase] at hgoing
    cases hgoing

/-- **Every input keeps the protocol.** -/
theorem Publishes.next (hs : Publishes s) (input : Input) : Publishes (s.next outside input) := by
  cases input with
  | daemonMode baud pin => exact ⟨daemonMode_sound hs.sound baud pin, rfl, hs.ends⟩
  | stop =>
      obtain ⟨hhost, hdaemon⟩ := stop_host s
      have hsame : s.next outside .stop = s.stop := rfl
      rw [hsame]
      refine ⟨hhost ▸ hs.sound, by rw [hhost, hdaemon]; exact hs.restartRil, fun hrejected => ?_⟩
      rw [hhost] at hrejected
      have hphase := hs.ends hrejected
      have hstop : s.stop = s := by
        unfold Service.stop
        rw [if_pos]
        rcases hphase with hphase | hphase <;> rw [hphase] <;> rfl
      rw [hstop]
      exact hphase
  | step maximum limits =>
      show Publishes (s.step outside maximum limits)
      cases hfinished : s.phase.isFinished with
      | true =>
          rw [step_finished hfinished]
          exact hs
      | false =>
          have hstep := step_stepped outside hs.sound (hs.isOpen hfinished) maximum limits
          refine ⟨hstep.sound, ?_, fun hrejected => ?_⟩
          · rw [hstep.grows.restartRil, hstep.daemon, hs.restartRil]
          · exact (hstep.ends hrejected).imp And.left And.left

theorem Reach.publishes (h : Reach outside s) : Publishes s := by
  induction h with
  | new hnew => exact new_publishes hnew
  | next _ input ih => exact ih.next input

/-- The clock fails behind the driver's step in this input. -/
def ClockFailsAt (outside : Outside E ω) (s : Service E ω) : Input → Prop
  | .step maximum limits => ClockFails outside s maximum limits
  | .daemonMode _ _ | .stop => False

/-- **The published properties.** In every run: the log is as `Announced` says. A rejected
write has finished the service. Whatever is done next adds to the log; a restart of the
interface layer only in daemon mode; a rejected write only together with the end, which is
`PropertyRejected` unless the clock fails behind the driver's step; and nothing if the
service is finished, which then also keeps its phase. -/
theorem published_properties (h : Reach outside s) :
    Announced s.host.log ∧
    ((∃ property value, .wrote property value false ∈ s.host.log) →
      s.phase = .finished .propertyRejected ∨ s.phase = .finished .internalFailure) ∧
    ∀ input, ∃ added, (s.next outside input).host.log = s.host.log ++ added ∧
      ((∃ value accepted, .wrote .rilRestart value accepted ∈ added) → s.daemon.isSome = true) ∧
      ((∃ property value, .wrote property value false ∈ added) →
        ((s.next outside input).phase = .finished .propertyRejected ∧
            ¬ ClockFailsAt outside s input) ∨
          ((s.next outside input).phase = .finished .internalFailure ∧
            ClockFailsAt outside s input)) ∧
      (s.phase.isFinished = true →
        added = [] ∧ (s.next outside input).phase = s.phase) := by
  have hs := h.publishes
  obtain ⟨stage, hlog, hagrees⟩ := hs.sound
  -- a rejected write in the log shows in the publication
  have hmark : ∀ {s' : Service E ω}, s'.host.Sound →
      (∃ property value, .wrote property value false ∈ s'.host.log) →
      s'.host.publication.rejected = true := by
    rintro s' ⟨stage', hlog', hagrees'⟩ ⟨property, value, hmem⟩
    rw [hlog'.rejected_of_mem hmem] at hagrees'
    exact hagrees'
  refine ⟨hlog.announced, fun hrejected => hs.ends (hmark hs.sound hrejected), fun input => ?_⟩
  cases input with
  | daemonMode baud pin =>
      exact ⟨[], by simp [Service.next, daemonMode], by simp, by simp, fun _ => ⟨rfl, rfl⟩⟩
  | stop =>
      refine ⟨[], ?_, by simp, by simp, fun hfinished => ⟨rfl, ?_⟩⟩
      · rw [List.append_nil]
        exact congrArg Host.log (stop_host s).1
      · show s.stop.phase = s.phase
        unfold Service.stop
        rw [if_pos hfinished]
  | step maximum limits =>
      cases hfinished : s.phase.isFinished with
      | true =>
          have hsame : s.next outside (.step maximum limits) = s := step_finished hfinished _ _
          exact ⟨[], by rw [hsame, List.append_nil], by simp, by simp,
            fun _ => ⟨rfl, by rw [hsame]⟩⟩
      | false =>
          have hstep := step_stepped outside hs.sound (hs.isOpen hfinished) maximum limits
          obtain ⟨added, hadded, honly⟩ := hstep.grows.log
          refine ⟨added, hadded, ?_, ?_, by simp⟩
          · rintro ⟨value, accepted, hmem⟩
            rw [← hs.restartRil]
            exact honly ⟨_, hmem, rfl⟩
          · rintro ⟨property, value, hmem⟩
            refine hstep.ends (hmark hstep.sound ⟨property, value, ?_⟩)
            rw [hadded]
            exact List.mem_append_right _ hmem

/-! ### A scene

The modem is taken into multiplexer mode, its first answer there is a reset, the backend
rejects the exception that is then published, and the next reading of the clock fails. -/

structure Scene where
  serial : List (List UInt8)
  polls : List Nat
  started : Bool

def scene : Outside Nat Scene where
  prepare _ w := (true, w)
  descriptor endpoint := endpoint
  read _ _ w :=
    match w.serial with
    | bytes :: rest => ((.transferred bytes.length, bytes), { w with serial := rest })
    | [] => ((.fault .wouldBlock, []), w)
  write _ input w := (if w.serial = [] then .fault .deviceReset else .transferred input.length, w)
  openEndpoint c w := (some c.val, w)
  epochsTaken w := (0, w)
  set property value w := (decide (¬ (property = .modemException ∧ value = .one)), w)
  openSerial w := (some (0, [⟨1, false⟩]), w)
  clock w := (if w.serial = [] then none else some 0, w)
  instant w := (if w.started then 20000 * nanosPerMs else 0, { w with started := true })
  poll interests _ w :=
    (.events (interests.map fun _ => w.polls.headD 0), { w with polls := w.polls.tail })

/-- The service in the scene after a number of steps. -/
def sceneAfter (steps : Nat) : Option (Service Nat Scene) :=
  (Service.new scene ⟨64, 0, false⟩ ⟨Runtime.scriptedAnswers [], [0, 1, 1, 1, 1], false⟩ 0 0).map
    fun s => (List.replicate steps (.step 1000 Runtime.scriptedLimits)).foldl (next scene) s

theorem sceneAfter_reach {steps : Nat} {s : Service Nat Scene} (h : sceneAfter steps = some s) :
    Reach scene s := by
  obtain ⟨s₀, hnew, rfl⟩ := Option.map_eq_some_iff.mp h
  have hrun : ∀ (inputs : List Input) (s : Service Nat Scene), Reach scene s →
      Reach scene (inputs.foldl (next scene) s) := by
    intro inputs
    induction inputs with
    | nil => exact fun _ hs => hs
    | cons input rest ih => exact fun s hs => ih _ (hs.next input)
  exact hrun _ _ (.new hnew)

/-- The service is finished, but not with `PropertyRejected`. -/
theorem published_properties_scene :
    ∃ s : Service Nat Scene, sceneAfter 6 = some s ∧ Announced s.host.log ∧
      s.phase = .finished .internalFailure := by
  cases hend : sceneAfter 6 with
  | none => exact absurd hend (by decide +kernel)
  | some s =>
      refine ⟨s, rfl, (published_properties (sceneAfter_reach hend)).1, ?_⟩
      have hphase : (sceneAfter 6).map (·.phase) = some (.finished .internalFailure) := by
        decide +kernel
      rw [hend] at hphase
      exact Option.some.inj hphase

theorem rejected_not_propertyRejected :
    ¬ ∀ (E ω : Type) (outside : Outside E ω) (s : Service E ω), Reach outside s →
      (∃ property value, .wrote property value false ∈ s.host.log) →
      s.phase = .finished .propertyRejected := by
  intro hclaim
  cases hend : sceneAfter 6 with
  | none => exact absurd hend (by decide +kernel)
  | some s =>
      have hfacts : (sceneAfter 6).map (fun s => (s.phase, s.host.log)) =
          some (.finished .internalFailure,
            [.wrote .reporterRunning .zero true, .wrote .modemException .zero true, .opened,
              .wrote .modemException .one false]) := by decide +kernel
      rw [hend] at hfacts
      obtain ⟨hphase, hlog⟩ := Prod.mk.inj (Option.some.inj hfacts)
      have hrejected := hclaim Nat Scene scene s (sceneAfter_reach hend)
        ⟨.modemException, .one, by rw [hlog]; simp⟩
      rw [hphase] at hrejected
      cases hrejected

end Runs

end Mindone.Mux.Service
