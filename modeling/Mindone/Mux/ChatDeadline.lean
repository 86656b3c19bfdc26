import Mindone.Mux.ChatCommands
import Mindone.Mux.ChatHandOff

/-!
# Mindone.Mux.ChatDeadline

**The time of a command is fixed when it starts.** Neither lines nor reports of the line move the
deadline (`Timed`), and an unframed result is waited for only where the deadline has been looked at
(`Within`), so that its settle time ends less than `tokenSettleMs` behind the deadline.

A tick that takes such a result does not look at the deadline: after `+CMUX: READY` the dialogue
may then be left behind its time, and the next call ends it.
-/

namespace Mindone.Mux.Chat

open Mindone.Lib

/-- The modem is waited for, or a command is under way. -/
def Controller.Waiting (c : Controller) : Prop :=
  c.phase = .waitingReady ∨ c.phase = .writing ∨ c.phase = .reading

instance (c : Controller) : Decidable c.Waiting := inferInstanceAs (Decidable (_ ∨ _ ∨ _))

/-- How many commands have been started. -/
def Controller.starts (c : Controller) : Nat := (startedCommands c.history).length

theorem Open.waiting {now : Nat} {c : Controller} (h : Open now c) : c.Waiting := h.phase

theorem not_waiting_of_settled {c : Controller} (h : c.phase = .settling ∨ c.phase = .ready) :
    ¬ c.Waiting := by
  rcases h with h | h <;> simp [Controller.Waiting, h]

theorem not_waiting_of_failed {c : Controller} (h : c.phase = .failed) : ¬ c.Waiting := by
  simp [Controller.Waiting, h]

/-! ### The deadline is not moved -/

/-- What a part of a call does to the deadline of a dialogue that goes on: it is left alone, unless
a command has been started. -/
structure Timed (now : Nat) (c c' : Controller) : Prop where
  back : c'.Waiting → c.Waiting
  fixed : c'.Waiting → c'.starts = c.starts ∧ c'.deadline = c.deadline ∨
    c.starts < c'.starts ∧ c'.deadline = now + commandTimeoutMs

variable {now : Nat} {c c' c'' : Controller}

theorem Timed.trans (h : Timed now c c') (h' : Timed now c' c'') : Timed now c c'' where
  back := fun hw => h.back (h'.back hw)
  fixed := by
    intro hw
    rcases h'.fixed hw with ⟨hstarts', hdeadline'⟩ | ⟨hstarts', hdeadline'⟩
    · rw [hstarts', hdeadline']
      exact h.fixed (h'.back hw)
    · refine .inr ⟨?_, hdeadline'⟩
      rcases h.fixed (h'.back hw) with ⟨hstarts, -⟩ | ⟨hstarts, -⟩ <;> omega

/-- Nothing that matters here has changed. -/
theorem Timed.of_same (hphase : c'.phase = c.phase) (hstarts : c'.starts = c.starts)
    (hdeadline : c'.deadline = c.deadline) : Timed now c c' where
  back := fun hw => by
    unfold Controller.Waiting at hw ⊢
    rwa [hphase] at hw
  fixed := fun _ => .inl ⟨hstarts, hdeadline⟩

theorem Timed.of_not_waiting (h : ¬ c'.Waiting) : Timed now c c' :=
  ⟨fun hw => absurd hw h, fun hw => absurd hw h⟩

/-- A mark that starts nothing. -/
theorem starts_note {mark : Mark} (hmark : startedCommands [mark] = []) :
    (c.note mark).starts = c.starts := by
  simp [Controller.starts, Controller.note, hmark]

theorem starts_starting (c : Controller) (command : Command) (now : Nat) :
    (c.starting command now).starts = c.starts + 1 := by
  simp [Controller.starts, Controller.starting, Controller.note, startedCommands]

/-- A command is started in a dialogue that goes on. -/
theorem timed_starting {c₁ : Controller} (hc : c.Waiting) (hstarts : c₁.starts = c.starts)
    (command : Command) (now : Nat) : Timed now c (c₁.starting command now) where
  back := fun _ => hc
  fixed := fun _ => .inr ⟨by rw [starts_starting, hstarts]; exact Nat.lt_succ_self _, rfl⟩

theorem Taken.timed (h : Taken now c c') : Timed now c c' := by
  have hanswered : ∀ record, (c.answered record).starts = c.starts := fun _ => starts_note rfl
  cases h with
  | begun hphase _ =>
      refine timed_starting (.inl hphase) ?_ _ _
      rfl
  | ignored _ => exact .of_same rfl rfl rfl
  | cmuxReady _ _ _ => exact .of_same rfl (hanswered _) rfl
  | noted _ _ _ => exact .of_same rfl (hanswered _) rfl
  | retried hphase _ _ => exact timed_starting (.inr (.inr hphase)) (hanswered _) _ _
  | advanced hphase _ _ _ => exact timed_starting (.inr (.inr hphase)) (hanswered _) _ _
  | finished _ _ _ => exact .of_not_waiting (not_waiting_of_settled (.inr rfl))
  | settling _ _ _ => exact .of_not_waiting (not_waiting_of_settled (.inl rfl))

theorem timed_closed (c : Controller) : Timed now c c.closed := by
  unfold Controller.closed
  split
  · exact .of_same rfl rfl rfl
  · exact .of_same rfl rfl rfl

theorem Ticked.timed (h : Ticked now c c') : Timed now c c' := by
  cases h with
  | held _ _ _ => exact .of_same rfl rfl rfl
  | taken _ _ _ c₁ htaken =>
      have hclock : Timed now c { c with lastNow := now, tokenUntil := none } := .of_same rfl rfl rfl
      exact (hclock.trans htaken.timed).trans (timed_closed c₁)
  | still _ _ => exact .of_same rfl rfl rfl
  | begun _ hphase =>
      refine timed_starting (.inl hphase) ?_ _ _
      rfl
  | retried _ hphase _ =>
      refine timed_starting (.inr (.inr hphase)) ?_ _ _
      exact starts_note (c := { c with lastNow := now }) rfl
  | settled _ _ => exact .of_not_waiting (not_waiting_of_settled (.inr rfl))
  | ready _ _ => exact .of_same rfl rfl rfl

theorem Written.timed {bytes : Nat} (h : Written now bytes c c') : Timed now c c' := by
  cases h with
  | part _ _ _ _ => exact .of_same rfl (starts_note rfl) rfl
  | whole hphase _ _ _ =>
      exact ⟨fun _ => .inr (.inl hphase), fun _ => .inl ⟨starts_note rfl, rfl⟩⟩

theorem Dropped.timed {e : Error} (h : Dropped c e c') : Timed now c c' :=
  .of_not_waiting (not_waiting_of_failed h.1)

theorem Failed.timed {e : Error} (h : Failed c e c') : Timed now c c' :=
  .of_not_waiting (not_waiting_of_failed h.1)

/-- A part of a call, from a state that the call has reached. -/
theorem timed_part {α : Type} {p : Step α} {start : Controller}
    (hp : ∀ c, Ends p c (fun _ c' => Timed now c c') fun _ c' => Timed now c c') :
    Keeps (Timed now start) (Timed now start) p := fun c hc =>
  (hp c).mono (fun _ _ h => hc.trans h) fun _ _ h => hc.trans h

theorem completeLine_timed (now : Nat) (c : Controller) :
    Ends (completeLine now) c (fun _ c' => Timed now c c') fun _ c' => Timed now c c' := by
  refine (completeLine_spec now c).mono ?_ fun _ _ h => h.timed
  rintro _ _ ⟨c₁, htaken, rfl, -⟩
  exact htaken.timed.trans (timed_closed c₁)

theorem handOff_timed (input : List UInt8) (offset : Nat) (c : Controller) :
    Ends (handOff input offset) c (fun _ c' => Timed now c c') fun _ c' => Timed now c c' := by
  refine (handOff_spec input offset c).mono ?_ fun _ _ h => h.elim
  rintro _ _ (rfl | rfl)
  · exact .of_same rfl rfl rfl
  · exact .of_same rfl rfl rfl

theorem feedByte_timed (now : Nat) (byte : UInt8) (next : Option UInt8) (c : Controller) :
    Ends (feedByte now byte next) c (fun _ c' => Timed now c c') fun _ c' => Timed now c c' := by
  refine (feedByte_spec now byte next c).mono ?_ fun _ _ h => h.timed
  rintro _ _ (rfl | rfl | ⟨-, -, rfl⟩)
  · exact .of_same rfl rfl rfl
  · exact .of_same rfl rfl rfl
  · exact .of_same rfl rfl rfl

theorem feedLoop_timed (now : Nat) (input rest : List UInt8) (index : Nat) (start : Controller) :
    Keeps (Timed now start) (Timed now start) (feedLoop now input index rest) := by
  induction rest generalizing index with
  | nil => exact keeps_pure _
  | cons byte rest ih =>
      unfold feedLoop
      refine (timed_part (feedByte_timed now byte _)).bind fun complete => keeps_ite (fun _ => ?_)
        fun _ => ih (index + 1)
      exact (timed_part (completeLine_timed now)).bind fun finished =>
        keeps_ite (fun _ => timed_part (handOff_timed input _)) fun _ => ih (index + 1)

theorem feedBoundary_timed (now : Nat) (input : List UInt8) (c : Controller) :
    Ends (feedBoundary now input) c (fun _ c' => Timed now c c') fun _ c' => Timed now c c' := by
  unfold feedBoundary
  rw [ends_bind, ends_get]
  split
  · rw [ends_bind, ends_set, ends_ite]
    have hcleared : Timed now c { c with tokenUntil := none } := .of_same rfl rfl rfl
    split
    · exact (completeLine_timed now _).mono (fun _ _ h => hcleared.trans h)
        fun _ _ h => hcleared.trans h
    · exact (ends_pure _).mpr hcleared
  · exact (ends_pure _).mpr (.of_same rfl rfl rfl)

theorem clock_timed (now : Nat) (c : Controller) :
    Ends (clock now) c (fun _ c' => Timed now c c') fun _ c' => Timed now c c' := by
  refine (clock_spec now c).mono ?_ fun _ _ h => h.timed
  rintro _ _ ⟨-, -, rfl⟩
  exact .of_same rfl rfl rfl

theorem tick_timed (now : Nat) (c : Controller) :
    Ends (tick now) c (fun _ c' => Timed now c c') fun _ c' => Timed now c c' :=
  (tick_spec now c).mono (fun _ _ h => h.timed) fun _ _ h => h.timed

theorem feed_timed (now : Nat) (input : List UInt8) (c : Controller) :
    Ends (feed now input) c (fun _ c' => Timed now c c') fun _ c' => Timed now c c' := by
  have hwhole : Keeps (Timed now c) (Timed now c) (feed now input) := by
    unfold feed
    refine (timed_part (clock_timed now)).bind fun _ =>
      (timed_part (feedBoundary_timed now input)).bind fun whole => keeps_ite
        (fun _ => timed_part (handOff_timed input 0)) fun _ => ?_
    refine (timed_part (tick_timed now)).bind fun _ => ?_
    intro c₁ hc₁
    rw [ends_bind, ends_get]
    exact keeps_ite (fun _ => timed_part (handOff_timed input 0)) (fun _ => keeps_ite
      (fun _ => timed_part fun c => ends_fail.mpr (.of_not_waiting (not_waiting_of_failed rfl)))
      fun _ => feedLoop_timed now input input 0 c) c₁ hc₁
  exact hwhole c (.of_same rfl rfl rfl)

/-- The time that a call is given; the other calls start no command. -/
def Event.time : Event → Nat
  | .feed now _ | .tick now | .acceptWritten now _ _ | .writeFault now _ _ | .readFault now _ => now
  | .cancel | .tokensTaken _ => 0

/-- **No call moves the deadline** of a dialogue that goes on, unless it starts a command. -/
theorem after_timed (c : Controller) (event : Event) : Timed event.time c (c.after event) := by
  refine ends_endState.mp ?_
  cases event with
  | feed now input =>
      refine ends_bind.mpr ((feed_timed now input c).mono ?_ fun _ _ h => h)
      exact fun _ _ h => (ends_pure _).mpr h
  | tick now => exact tick_timed now c
  | acceptWritten now token bytes =>
      exact (acceptWritten_spec now token bytes c).mono (fun _ _ h => h.timed) fun _ _ h => h.timed
  | writeFault now token fault =>
      exact (writeFault_spec now token fault c).mono (fun _ _ h => h.timed) fun _ _ h => h.timed
  | readFault now fault =>
      exact (readFault_spec now fault c).mono (fun _ _ h => h.timed) fun _ _ h => h.timed
  | cancel => exact ends_fail.mpr (.of_not_waiting (not_waiting_of_failed rfl))
  | tokensTaken count => exact ends_modify.mpr (.of_same rfl rfl rfl)

/-! ### Looking at the deadline -/

/-- Where a piece leaves the dialogue: its time is not over, or a result is waited for whose settle
time began before the deadline. -/
structure Within (now : Nat) (c : Controller) : Prop where
  time : c.Waiting → now < c.deadline
  token : ∀ due, c.tokenUntil = some due → due = now + tokenSettleMs ∧ now < c.deadline

theorem Open.within (h : Open now c) : Within now c where
  time := fun _ => h.time
  token := fun due hdue => absurd (h.token.symm.trans hdue) (by simp)

theorem Over.within (h : Over now c) : Within now c where
  time := fun hw => absurd hw (not_waiting_of_settled h.settled)
  token := fun due hdue => absurd (h.token.symm.trans hdue) (by simp)

theorem handOff_within (hc : Over now c) (input : List UInt8) (offset : Nat) :
    Ends (handOff input offset) c (fun _ c' => Within now c') fun _ c' => c'.phase = .failed :=
  (handOff_over hc input offset).mono (fun _ _ h => h.within) fun _ _ h => h

/-- The loop starts with time left, and only its last byte can leave a result that is waited for. -/
theorem feedLoop_within (input rest : List UInt8) (index : Nat) (hc : Open now c) :
    Ends (feedLoop now input index rest) c (fun _ c' => Within now c')
      fun _ c' => c'.phase = .failed := by
  induction rest generalizing index c with
  | nil => exact (ends_pure _).mpr hc.within
  | cons byte rest ih =>
      have hline : ∀ c₁, Open now c₁ → Ends (do
          if ← completeLine now then handOff input (index + 1)
          else feedLoop now input (index + 1) rest) c₁ (fun _ c' => Within now c')
          fun _ c' => c'.phase = .failed := by
        intro c₁ hc₁
        rw [ends_bind]
        refine (completeLine_open hc₁).mono ?_ fun _ _ h => h
        intro finished c' h
        cases finished with
        | true => exact handOff_within h.1 input _
        | false => exact ih (index + 1) h.1
      have hnext : ∀ complete c₁, Open now c₁ → Ends (if complete = true then do
          if ← completeLine now then handOff input (index + 1)
          else feedLoop now input (index + 1) rest
          else feedLoop now input (index + 1) rest) c₁ (fun _ c' => Within now c')
          fun _ c' => c'.phase = .failed := by
        intro complete c₁ hc₁
        cases complete with
        | true => exact hline c₁ hc₁
        | false => exact ih (index + 1) hc₁
      unfold feedLoop
      rw [ends_bind]
      refine (feedByte_spec now byte rest.head? c).mono ?_ fun _ _ h => h.1
      rintro complete c₁ (rfl | rfl | ⟨rfl, hlast, rfl⟩)
      · exact hnext complete _ hc
      · exact hnext complete _ ⟨hc.clock, hc.token, hc.time, hc.phase⟩
      · -- the last byte
        obtain rfl : rest = [] := List.head?_eq_none_iff.mp hlast
        refine (ends_pure _).mpr ⟨fun _ => hc.time, fun due hdue => ?_⟩
        exact ⟨(Option.some.inj hdue).symm, hc.time⟩

/-- **A piece looks at the deadline.** -/
theorem feed_within (hc : Sound c) {input : List UInt8} (hinput : input ≠ []) :
    Ends (feed now input) c (fun _ c' => Within now c') fun _ c' => c'.phase = .failed := by
  obtain ⟨byte, rest, rfl⟩ := List.exists_cons_of_ne_nil hinput
  rw [feed_eq, ends_bind]
  refine (arrive_some now byte hc).mono ?_ fun _ _ h => h
  intro finished c₁ hreached
  cases finished with
  | true => exact handOff_within hreached _ _
  | false =>
      rw [if_neg (by decide), ends_ite]
      split
      · exact ends_fail.mpr rfl
      · exact feedLoop_within _ _ 0 hreached.1

/-- The settle time of a result ends less than `tokenSettleMs` behind the deadline. -/
def Bounded (c : Controller) : Prop :=
  c.Waiting → ∀ due, c.tokenUntil = some due → due < c.deadline + tokenSettleMs

theorem Within.bounded (h : Within now c) : Bounded c := by
  intro _ due hdue
  obtain ⟨rfl, hdeadline⟩ := h.token due hdue
  omega

theorem bounded_of_none (h : c.tokenUntil = none) : Bounded c :=
  fun _ due hdue => absurd (h.symm.trans hdue) (by simp)

theorem bounded_of_failed (h : c.phase = .failed) : Bounded c :=
  fun hw => absurd hw (not_waiting_of_failed h)

/-- What the clock leaves of a result that is waited for. -/
theorem Ticked.token (h : Ticked now c c') :
    c'.tokenUntil = none ∨
      ∃ due, c.tokenUntil = some due ∧ now < due ∧ c' = { c with lastNow := now } := by
  cases h with
  | held due htoken hdue => exact .inr ⟨due, htoken, hdue, rfl⟩
  | taken due _ _ c₁ htaken =>
      have hnone : c₁.tokenUntil = none := htaken.frame.2.2
      unfold Controller.closed
      split
      · exact .inl hnone
      · exact .inl hnone
  | still htoken _ => exact .inl htoken
  | begun htoken _ => exact .inl htoken
  | retried htoken _ _ => exact .inl htoken
  | settled htoken _ => exact .inl htoken
  | ready htoken _ => exact .inl htoken

theorem Ticked.bounded (h : Ticked now c c') (hc : Bounded c) : Bounded c' := by
  rcases h.token with hnone | ⟨due, hdue, -, rfl⟩
  · exact bounded_of_none hnone
  · exact hc

theorem Written.bounded {bytes : Nat} (h : Written now bytes c c') (hsound : Sound c) :
    Bounded c' := by
  cases h with
  | part hphase _ _ _ => exact bounded_of_none (hsound.of_writing hphase)
  | whole hphase _ _ _ => exact bounded_of_none (hsound.of_writing hphase)

theorem tick_bounded (hc : Bounded c) (now : Nat) :
    Ends (tick now) c (fun _ => Bounded) fun _ => Bounded :=
  (tick_spec now c).mono (fun _ _ h => h.bounded hc) fun _ _ h => bounded_of_failed h.1

theorem feed_bounded (hsound : Sound c) (hc : Bounded c) (now : Nat) (input : List UInt8) :
    Ends (feed now input) c (fun _ => Bounded) fun _ => Bounded := by
  cases input with
  | nil =>
      have htick : Bounded (endState (tick now c)) := ends_endState.mp (tick_bounded hc now)
      rw [ends_endState, ← outcome_fst, outcome_feed_nil]
      exact htick
  | cons byte rest =>
      exact (feed_within hsound (List.cons_ne_nil byte rest)).mono (fun _ _ h => h.bounded)
        fun _ _ h => bounded_of_failed h

/-- **Every call keeps the bound.** -/
theorem after_bounded (hsound : Sound c) (hc : Bounded c) (event : Event) :
    Bounded (c.after event) := by
  refine ends_endState.mp ?_
  cases event with
  | feed now input =>
      refine ends_bind.mpr ((feed_bounded hsound hc now input).mono ?_ fun _ _ h => h)
      exact fun _ _ h => (ends_pure _).mpr h
  | tick now => exact tick_bounded hc now
  | acceptWritten now token bytes =>
      exact (acceptWritten_spec now token bytes c).mono (fun _ _ h => h.bounded hsound)
        fun _ _ h => bounded_of_failed h.1
  | writeFault now token fault =>
      exact (writeFault_spec now token fault c).mono (fun _ _ h => h.bounded hc)
        fun _ _ h => bounded_of_failed h.1
  | readFault now fault =>
      exact (readFault_spec now fault c).mono (fun _ _ h => h.bounded hc)
        fun _ _ h => bounded_of_failed h.1
  | cancel => exact ends_fail.mpr (bounded_of_failed rfl)
  | tokensTaken count => exact ends_modify.mpr hc

/-! ### Behind the deadline -/

/-- The dialogue awaits the answer to `AT+CMUX` behind its time, and waits for no result. -/
structure Late (now : Nat) (c : Controller) : Prop where
  phase : c.phase = .reading
  command : c.command = some .cmux
  token : c.tokenUntil = none
  clock : c.lastNow = now
  time : c.deadline ≤ now

theorem Late.clock_ok (h : Late now c) {later : Nat} (hlater : now ≤ later) :
    Chat.clock later c = .ok () { c with lastNow := later } := by
  have hclock := h.clock
  unfold Chat.clock
  rw [run_get_bind, if_neg (by simp [h.phase]), if_neg (by omega)]
  rfl

theorem Late.tick (h : Late now c) {later : Nat} (hlater : now ≤ later) :
    ∃ c', Chat.tick later c = .error .timeout c' := by
  have htime := h.time
  have hremains : remains c.deadline later = false := decide_eq_false (by omega)
  refine ⟨({ c with lastNow := later } : Controller).failed .timeout, ?_⟩
  unfold Chat.tick
  rw [run_bind_ok (h.clock_ok hlater), run_get_bind]
  simp only [h.token, hremains, h.phase, h.command]
  rfl

/-- **The next call ends it.** -/
theorem Late.feed (h : Late now c) {later : Nat} (hlater : now ≤ later) (input : List UInt8) :
    ∃ c', Chat.feed later input c = .error .timeout c' := by
  have hboundary := feedBoundary_free later (c := { c with lastNow := later }) h.token input
  have hlate : Late later { c with lastNow := later } :=
    ⟨h.phase, h.command, h.token, rfl, h.time.trans hlater⟩
  obtain ⟨c', htick⟩ := hlate.tick (Nat.le_refl later)
  refine ⟨c', ?_⟩
  unfold Chat.feed
  rw [run_bind_ok (h.clock_ok hlater), run_bind_ok hboundary, if_neg (by decide),
    run_bind_error htick]

/-- What a tick that took a result leaves. -/
theorem Taken.late {due : Nat} (hsound : Sound c) (halive : c.phase ≠ .failed)
    (htoken : c.tokenUntil = some due) {c₁ : Controller}
    (htaken : Taken now { c with lastNow := now, tokenUntil := none } c₁) (hw : c₁.Waiting)
    (htime : ¬ now < c₁.deadline) : c.record = cmuxReadyText ∧ Late now c₁ := by
  have hpending : c.unframedCmuxResult = true := by
    rw [← hsound halive]
    simp [Controller.tokenPending, htoken]
  simp only [Controller.unframedCmuxResult, Bool.and_eq_true, Bool.or_eq_true, beq_iff_eq]
    at hpending
  obtain ⟨⟨hreading, hcommand⟩, hrecord⟩ := hpending
  cases htaken with
  | begun hphase _ => exact absurd (hphase.symm.trans hreading) (by decide)
  | ignored hphase => exact absurd hreading hphase
  | cmuxReady _ hclass _ =>
      refine ⟨?_, ⟨hreading, hcommand, rfl, rfl, Nat.le_of_not_lt htime⟩⟩
      rcases hrecord with (hok | herror) | hready
      · exact absurd (hclass.symm.trans (congrArg classify hok)) (by decide)
      · exact absurd (hclass.symm.trans (congrArg classify herror)) (by decide)
      · exact hready
  | noted _ hrejected hok =>
      refine ⟨?_, ⟨hreading, hcommand, rfl, rfl, Nat.le_of_not_lt htime⟩⟩
      rcases hrecord with (hok' | herror) | hready
      · exact absurd (congrArg classify hok') hok
      · exact absurd (congrArg classify herror) hrejected
      · exact hready
  | retried _ _ hat => exact absurd (hat.symm.trans hcommand) (by decide)
  | advanced _ _ next hnext =>
      have hnone : Controller.following { c with lastNow := now, tokenUntil := none } = none := by
        simp [Controller.following, hcommand]
      exact absurd (hnone.symm.trans hnext) (by simp)
  | finished _ _ _ => exact absurd hw (not_waiting_of_settled (.inr rfl))
  | settling _ _ _ => exact absurd hw (not_waiting_of_settled (.inl rfl))

/-- **What a tick leaves**: time, a result that is waited for, or a dialogue behind its time. -/
theorem Ticked.looked (h : Ticked now c c') (hsound : Sound c) (halive : c.phase ≠ .failed)
    (hw : c'.Waiting) :
    now < c'.deadline ∨ (∃ due, c'.tokenUntil = some due ∧ now < due) ∨
      (∃ due, c.tokenUntil = some due ∧ due ≤ now) ∧ c.record = cmuxReadyText ∧ Late now c' := by
  cases h with
  | held due htoken hdue => exact .inr (.inl ⟨due, htoken, hdue⟩)
  | taken due htoken hdue c₁ htaken =>
      by_cases hsettled : c₁.phase = .settling ∨ c₁.phase = .ready
      · have hclosed : c₁.closed.phase = c₁.phase := by
          unfold Controller.closed
          split <;> rfl
        exact absurd hw (not_waiting_of_settled (by rwa [hclosed]))
      have hclosed : c₁.closed = c₁ := if_neg hsettled
      rw [hclosed] at hw ⊢
      by_cases htime : now < c₁.deadline
      · exact .inl htime
      · exact .inr (.inr ⟨⟨due, htoken, Nat.le_of_not_lt hdue⟩,
          htaken.late hsound halive htoken hw htime⟩)
  | still _ hremains => exact .inl hremains
  | begun _ _ => exact .inl (Nat.lt_add_of_pos_right (by decide))
  | retried _ _ _ => exact .inl (Nat.lt_add_of_pos_right (by decide))
  | settled _ _ => exact absurd hw (not_waiting_of_settled (.inr rfl))
  | ready _ hphase => exact absurd hw (not_waiting_of_settled (.inr hphase))

/-! ### Runs -/

/-- How long the modem is waited for. -/
def Config.wait (config : Config) : Nat := if config.userBuild then userReadyWaitMs else readyWaitMs

/-- The deadline that is fixed when a call starts a command. -/
def fixedBy (event : Event) (c : Controller) (fixed : Nat) : Nat :=
  if (c.after event).starts = c.starts then fixed else event.time + commandTimeoutMs

/-- A run, with the deadline that was fixed when the last command, or else the wait, began. -/
inductive Run (config : Config) : Controller → Nat → Prop
  | new {now nextWrite : Nat} {c : Controller} (h : Controller.new config now nextWrite = .ok c) :
      Run config c (now + config.wait)
  | after {c : Controller} {fixed : Nat} (h : Run config c fixed) (event : Event) :
      Run config (c.after event) (fixedBy event c fixed)

variable {config : Config} {fixed : Nat}

theorem Run.reachable (h : Run config c fixed) : Reachable config c := by
  induction h with
  | new h => exact .new h
  | after _ event ih => exact ih.after event

theorem new_spec {nextWrite : Nat} (h : Controller.new config now nextWrite = .ok c) :
    c.deadline = now + config.wait ∧ c.tokenUntil = none := by
  unfold Controller.new at h
  split at h
  · cases h
  split at h
  · cases h
  rename_i hdeadline
  obtain rfl := Except.ok.inj h
  exact ⟨checkedAdd_eq hdeadline, rfl⟩

theorem Run.bounded (h : Run config c fixed) : Bounded c := by
  induction h with
  | new h => exact bounded_of_none (new_spec h).2
  | after h event ih => exact after_bounded h.reachable.sound ih event

/-- **The deadline is the one that was fixed.** -/
theorem Run.deadline (h : Run config c fixed) (hw : c.Waiting) : c.deadline = fixed := by
  induction h with
  | new h => exact (new_spec h).1
  | @after c₀ fixed₀ h event ih =>
      have htimed := after_timed c₀ event
      unfold fixedBy
      rcases htimed.fixed hw with ⟨hstarts, hdeadline⟩ | ⟨hstarts, hdeadline⟩
      · rw [if_pos hstarts, hdeadline]
        exact ih (htimed.back hw)
      · rw [if_neg (Nat.ne_of_gt hstarts), hdeadline]

/-- A call that looks at the clock with something to do. -/
inductive Looks : Event → Prop
  | tick (now : Nat) : Looks (.tick now)
  | feed (now : Nat) (input : List UInt8) (h : input ≠ []) : Looks (.feed now input)

/-- What a successful call of the two kinds leaves. -/
theorem Looks.leaves {event : Event} (h : Looks event) (hsound : Sound c)
    (hok : event.call c = .ok () c') (hw : c'.Waiting) :
    event.time < c'.deadline ∨ (∃ due, c'.tokenUntil = some due ∧ event.time < due) ∨
      (∃ now due, event = .tick now ∧ c.tokenUntil = some due ∧ due ≤ now ∧
        c.record = cmuxReadyText) ∧ Late event.time c' := by
  cases h with
  | tick now =>
      have halive : c.phase ≠ .failed := by
        intro hfailed
        have herror : Chat.tick now c = .error .failed c := by
          unfold Chat.tick
          exact run_bind_error (clock_failed now hfailed)
        cases herror.symm.trans hok
      rcases ((ends_of_ok hok).mp (tick_spec now c)).looked hsound halive hw with
        htime | htoken | ⟨⟨due, htoken, hdue⟩, hrecord, hlate⟩
      · exact .inl htime
      · exact .inr (.inl htoken)
      · exact .inr (.inr ⟨⟨now, due, rfl, htoken, hdue, hrecord⟩, hlate⟩)
  | feed now input hinput =>
      have hwithin : Ends (Event.call (.feed now input)) c (fun _ c' => Within now c')
          fun _ c' => c'.phase = .failed := by
        refine ends_bind.mpr ((feed_within hsound hinput).mono ?_ fun _ _ h => h)
        exact fun _ _ h => (ends_pure _).mpr h
      exact .inl (((ends_of_ok hok).mp hwithin).time hw)

/-- **Command time is not stretched.** In every run the deadline is the one that was fixed when the
command or the wait began. A tick, or a piece that is not empty, leaves the dialogue before it, or
with a result that is waited for and settles less than `tokenSettleMs` behind it, or it is a tick
that took the settled result `+CMUX: READY`: then every later tick or piece ends the dialogue. -/
theorem command_time (h : Run config c fixed) :
    (c.Waiting → c.deadline = fixed) ∧
    ∀ event c', Looks event → event.call c = .ok () c' → c'.Waiting →
      event.time < fixedBy event c fixed ∨
      (∃ due, c'.tokenUntil = some due ∧ event.time < due ∧
        due < fixedBy event c fixed + tokenSettleMs) ∨
      (∃ now due, event = .tick now ∧ c.tokenUntil = some due ∧ due ≤ now ∧
        c.record = cmuxReadyText) ∧ c'.phase = .reading ∧ c'.tokenUntil = none ∧
        ∀ later input, event.time ≤ later →
          (∃ c₁, tick later c' = .error .timeout c₁) ∧
          ∃ c₁, feed later input c' = .error .timeout c₁ := by
  refine ⟨h.deadline, fun event c' hlooks hok hw => ?_⟩
  have hafter : c.after event = c' := by
    unfold Controller.after
    rw [hok]
    rfl
  have hnext := h.after event
  rw [hafter] at hnext
  rw [← hnext.deadline hw]
  rcases hlooks.leaves h.reachable.sound hok hw with htime | ⟨due, htoken, hdue⟩ | ⟨htook, hlate⟩
  · exact .inl htime
  · exact .inr (.inl ⟨due, htoken, hdue, hnext.bounded hw due htoken⟩)
  · exact .inr (.inr ⟨htook, hlate.phase, hlate.token, fun later input hlater =>
      ⟨hlate.tick hlater, hlate.feed hlater input⟩⟩)

/-- Where a script leads can be computed. -/
theorem Run.of_script (config : Config) (events : List Event) (P : Controller → Nat → Bool)
    (h : (Controller.new config 0 0).toOption.any
      (fun c => Function.uncurry P
        (events.foldl (fun at' event => (at'.1.after event, fixedBy event at'.1 at'.2))
          (c, config.wait))) = true) :
    ∃ c fixed, Run config c fixed ∧ P c fixed = true := by
  obtain ⟨c, hnew, hc⟩ := (Option.any_eq_true _ _).mp h
  have hrun : ∀ (events : List Event) c fixed, Run config c fixed →
      Run config (events.foldl (fun at' event => (at'.1.after event, fixedBy event at'.1 at'.2))
        (c, fixed)).1
        (events.foldl (fun at' event => (at'.1.after event, fixedBy event at'.1 at'.2))
          (c, fixed)).2 := by
    intro events
    induction events with
    | nil => exact fun c fixed h => h
    | cons event events ih => exact fun c fixed h => ih _ _ (h.after event)
  cases hstart : Controller.new config 0 0 with
  | error e =>
      rw [hstart] at hnew
      cases hnew
  | ok c' =>
      rw [hstart] at hnew
      obtain rfl := Option.some.inj hnew
      refine ⟨_, _, hrun events c' config.wait ?_, hc⟩
      have hfirst := Run.new hstart
      rwa [Nat.zero_add] at hfirst

/-- The calls up to `+CMUX: READY`, which has no line end, shortly before the deadline. -/
def lateScript : List Event :=
  let ok := okText ++ [0x0d]
  [.tick 20000, .acceptWritten 20000 1 3, .feed 20000 ok, .acceptWritten 20000 2 4,
    .feed 20000 ok, .acceptWritten 20000 3 5, .feed 20000 ok, .acceptWritten 20000 4 18,
    .feed 24990 cmuxReadyText]

/-- What a tick leaves, where it succeeds. -/
def ticked (now : Nat) (c : Controller) : Option Controller :=
  match tick now c with
  | .ok _ c' => some c'
  | .error _ _ => none

theorem tick_of_ticked {now : Nat} {c c' : Controller} (h : c' ∈ ticked now c) :
    tick now c = .ok () c' := by
  unfold ticked at h
  split at h
  · rename_i c₁ htick
    cases h
    exact htick
  · cases h

/-- In the script the deadline of `AT+CMUX` is the one that was fixed. Behind it, the result that has
no line end is waited for, and taken when it is settled. -/
theorem command_time_scripted :
    ∃ c fixed, Run plainConfig c fixed ∧ c.Waiting ∧ c.deadline = fixed ∧ fixed = 25000 ∧
      (∃ c', tick 25005 c = .ok () c' ∧ ∃ due, c'.tokenUntil = some due ∧ 25005 < due ∧ due < 25020) ∧
      ∃ c', tick 25010 c = .ok () c' ∧ c'.phase = .reading ∧
        ∀ later input, 25010 ≤ later →
          (∃ c₁, tick later c' = .error .timeout c₁) ∧
          ∃ c₁, feed later input c' = .error .timeout c₁ := by
  obtain ⟨c, fixed, hrun, hc⟩ := Run.of_script plainConfig lateScript
    (fun c fixed => decide (c.Waiting ∧ fixed = 25000 ∧ fixedBy (.tick 25005) c fixed = 25000 ∧
      fixedBy (.tick 25010) c fixed = 25000 ∧ c.tokenUntil = some 25010 ∧
      (∃ c₁ ∈ ticked 25005 c, c₁.Waiting) ∧
      ∃ c₂ ∈ ticked 25010 c, c₂.Waiting ∧ c₂.tokenUntil = none)) (by decide +kernel)
  obtain ⟨hw, hfixed, hearly, hlate, hpending, ⟨c₁, hticked₁, hw₁⟩, c₂, hticked₂, hw₂, htoken₂⟩ :=
    of_decide_eq_true hc
  have htick₁ := tick_of_ticked hticked₁
  have htick₂ := tick_of_ticked hticked₂
  obtain ⟨hdeadline, hlooks⟩ := command_time hrun
  refine ⟨c, fixed, hrun, hw, hdeadline hw, hfixed, ⟨c₁, htick₁, ?_⟩, c₂, htick₂, ?_⟩
  · rcases hlooks (.tick 25005) c₁ (.tick 25005) htick₁ hw₁ with
      htime | hwaits | ⟨⟨now, due, hnow, hdue, hle, -⟩, -⟩
    · rw [hearly] at htime
      exact absurd htime (by decide)
    · rw [hearly] at hwaits
      exact hwaits
    · cases hnow
      rw [hpending] at hdue
      cases hdue
      exact absurd hle (by decide)
  · rcases hlooks (.tick 25010) c₂ (.tick 25010) htick₂ hw₂ with
      htime | ⟨due, hdue, -⟩ | ⟨-, hphase, -, hends⟩
    · rw [hlate] at htime
      exact absurd htime (by decide)
    · rw [htoken₂] at hdue
      cases hdue
    · exact ⟨hphase, fun later input hlater => hends later input hlater⟩

/-- **A tick can leave the dialogue behind its deadline**, without a result that is waited for. -/
theorem command_time_late :
    ¬ ∀ (config : Config) (c : Controller) (fixed : Nat), Run config c fixed →
      ∀ event c', Looks event → event.call c = .ok () c' → c'.Waiting →
        event.time < fixedBy event c fixed ∨
        ∃ due, c'.tokenUntil = some due ∧ event.time < due ∧
          due < fixedBy event c fixed + tokenSettleMs := by
  intro hclaim
  obtain ⟨c, fixed, hrun, hc⟩ := Run.of_script plainConfig lateScript
    (fun c fixed => decide (fixedBy (.tick 25010) c fixed = 25000 ∧
      ∃ c' ∈ ticked 25010 c, c'.Waiting ∧ c'.tokenUntil = none)) (by decide +kernel)
  obtain ⟨hfixed, c', hticked, hw, htoken⟩ := of_decide_eq_true hc
  rcases hclaim plainConfig c fixed hrun (.tick 25010) c' (.tick 25010) (tick_of_ticked hticked) hw
    with htime | ⟨due, hdue, -⟩
  · rw [hfixed] at htime
    exact absurd htime (by decide)
  · rw [htoken] at hdue
    cases hdue

end Mindone.Mux.Chat
