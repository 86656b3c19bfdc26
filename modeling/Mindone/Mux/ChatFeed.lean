import Mindone.Mux.ChatSteps

/-!
# Mindone.Mux.ChatFeed

**The input of the dialogue.** The answer to `AT+CMUX` need not end with a line end: `feed`
looks one byte ahead for its end, and where the input stops right there it waits for the
next piece (`tokenUntil`). `digest_next` says that both ways agree, and `Calm` what holds
between two pieces.
-/

namespace Mindone.Mux.Chat

open Mindone.Lib

/-! ### Controllers between two pieces -/

/-- The dialogue goes on, and the time for its next step is not over. -/
structure Open (now : Nat) (c : Controller) : Prop where
  clock : c.lastNow = now
  token : c.tokenUntil = none
  time : now < c.deadline
  phase : c.phase = .waitingReady ∨ c.phase = .writing ∨ c.phase = .reading

/-- The dialogue is over: what comes is for the multiplexer. -/
structure Over (now : Nat) (c : Controller) : Prop where
  clock : c.lastNow = now
  token : c.tokenUntil = none
  phase : c.phase = .ready ∨ c.phase = .settling ∧ now < c.deadline

/-- A result without a line end has been read, and more of it may still come. -/
structure Held (now : Nat) (c : Controller) : Prop where
  clock : c.lastNow = now
  phase : c.phase = .reading
  token : ∃ due, c.tokenUntil = some due ∧ now < due

/-- An unframed result is waited for exactly where one has been read. -/
def Sound (c : Controller) : Prop :=
  c.phase ≠ .failed → c.tokenPending = c.unframedCmuxResult

/-- A result that has been read and is not waited for goes on with the next byte. -/
def GoesOn (c : Controller) (rest : List UInt8) : Prop :=
  c.unframedCmuxResult = true → ∃ byte, rest.head? = some byte ∧ isPrintable byte = true

theorem goesOn_of_false {c : Controller} (h : c.unframedCmuxResult = false)
    (rest : List UInt8) : GoesOn c rest := fun htrue => absurd (h.symm.trans htrue) (by simp)

/-- Only a printable byte can go on with a result. -/
theorem printable_of_boundary {token : List UInt8} {next : UInt8}
    (h : tokenBoundary token next = false) : isPrintable next = true := by
  unfold tokenBoundary at h
  rw [Bool.or_eq_false_iff] at h
  simpa using h.1

theorem Over.settled {now : Nat} {c : Controller} (h : Over now c) :
    c.phase = .settling ∨ c.phase = .ready := by
  rcases h.phase with hready | hsettling
  · exact .inr hready
  · exact .inl hsettling.1

theorem Open.not_settled {now : Nat} {c : Controller} (h : Open now c) :
    ¬ (c.phase = .settling ∨ c.phase = .ready) := by
  rcases h.phase with hphase | hphase | hphase <;> simp [hphase]

theorem unframed_of_phase {c : Controller} (h : c.phase ≠ .reading) :
    c.unframedCmuxResult = false := by
  simp [Controller.unframedCmuxResult, h]

theorem unframed_of_record {c : Controller} (h : c.record = []) :
    c.unframedCmuxResult = false := by
  simp [Controller.unframedCmuxResult, h, okText, errorText, cmuxReadyText, ascii]

theorem sound_of_free {c : Controller} (htoken : c.tokenUntil = none)
    (hfree : c.unframedCmuxResult = false) : Sound c := by
  intro _
  simp [Controller.tokenPending, htoken, hfree]

theorem Over.sound {now : Nat} {c : Controller} (h : Over now c) : Sound c :=
  sound_of_free h.token (unframed_of_phase (by rcases h.settled with hp | hp <;> simp [hp]))

/-- Waiting for the rest of a result, the controller awaits the answer to `AT+CMUX`. -/
theorem Sound.reading {c : Controller} (h : Sound c) (halive : c.phase ≠ .failed) {due : Nat}
    (hdue : c.tokenUntil = some due) : c.phase = .reading := by
  have hpending : c.unframedCmuxResult = true := by
    rw [← h halive]
    simp [Controller.tokenPending, hdue]
  by_contra hphase
  rw [unframed_of_phase hphase] at hpending
  cases hpending

/-! ### A complete line -/

theorem open_starting {now : Nat} (c : Controller) (command : Command) (hclock : c.lastNow = now)
    (htoken : c.tokenUntil = none) : Open now (c.starting command now) where
  clock := hclock
  token := htoken
  time := Nat.lt_add_of_pos_right (by decide)
  phase := .inr (.inl rfl)

/-- The answer that ends the dialogue leaves time to settle. -/
theorem Taken.closing {now : Nat} {c c' : Controller} (h : Taken now c c') (hclock : c.lastNow = now)
    (htoken : c.tokenUntil = none) (hphase : ¬ (c.phase = .settling ∨ c.phase = .ready))
    (hsettled : c'.phase = .settling ∨ c'.phase = .ready) : Over now c' := by
  have hreading : c.phase = .reading → c'.phase = .reading → False := by
    intro _ hp
    rcases hsettled with h | h
    · exact absurd (hp.symm.trans h) (by decide)
    · exact absurd (hp.symm.trans h) (by decide)
  cases h with
  | begun _ _ => rcases hsettled with h | h <;> cases h
  | ignored _ => exact absurd hsettled hphase
  | cmuxReady hp _ _ => exact (hreading hp hp).elim
  | noted hp _ _ => exact (hreading hp hp).elim
  | retried _ _ _ => rcases hsettled with h | h <;> cases h
  | advanced _ _ _ _ => rcases hsettled with h | h <;> cases h
  | finished _ _ _ => exact ⟨hclock, htoken, .inl rfl⟩
  | settling _ _ _ =>
      exact ⟨hclock, htoken, .inr ⟨rfl, Nat.lt_add_of_pos_right (by decide)⟩⟩

/-- A line that is taken leaves the chat open until it settles. -/
theorem Taken.open {now : Nat} {c c' : Controller} (h : Taken now c c') (hc : Open now c)
    (hsettled : ¬ (c'.phase = .settling ∨ c'.phase = .ready)) :
    Open now c' := by
  cases h with
  | begun _ _ => exact open_starting _ _ hc.clock hc.token
  | ignored _ => exact ⟨hc.clock, hc.token, hc.time, hc.phase⟩
  | cmuxReady _ _ _ => exact ⟨hc.clock, hc.token, hc.time, hc.phase⟩
  | noted _ _ _ => exact ⟨hc.clock, hc.token, hc.time, hc.phase⟩
  | retried _ _ _ => exact open_starting _ _ hc.clock hc.token
  | advanced _ _ _ _ => exact open_starting _ _ hc.clock hc.token
  | finished _ _ _ => exact absurd (.inr rfl) hsettled
  | settling _ _ _ => exact absurd (.inl rfl) hsettled

/-- What a line never changes. -/
theorem Taken.frame {now : Nat} {c c' : Controller} (h : Taken now c c') :
    c'.record = [] ∧ c'.lastNow = c.lastNow ∧ c'.tokenUntil = c.tokenUntil := by
  cases h with
  | begun _ _ => exact ⟨rfl, rfl, rfl⟩
  | ignored _ => exact ⟨rfl, rfl, rfl⟩
  | cmuxReady _ _ _ => exact ⟨rfl, rfl, rfl⟩
  | noted _ _ _ => exact ⟨rfl, rfl, rfl⟩
  | retried _ _ _ => exact ⟨rfl, rfl, rfl⟩
  | advanced _ _ _ _ => exact ⟨rfl, rfl, rfl⟩
  | finished _ _ _ => exact ⟨rfl, rfl, rfl⟩
  | settling _ _ _ => exact ⟨rfl, rfl, rfl⟩

theorem Taken.alive {now : Nat} {c c' : Controller} (h : Taken now c c') (hc : c.phase ≠ .failed) :
    c'.phase ≠ .failed := by
  cases h with
  | begun _ _ => simp [Controller.starting]
  | ignored _ => exact hc
  | cmuxReady _ _ _ => exact hc
  | noted _ _ _ => exact hc
  | retried _ _ _ => simp [Controller.starting]
  | advanced _ _ _ _ => simp [Controller.starting]
  | finished _ _ _ => simp
  | settling _ _ _ => simp

@[simp] theorem closed_record (c : Controller) : c.closed.record = c.record := by
  unfold Controller.closed
  split <;> rfl

@[simp] theorem closed_tokenUntil (c : Controller) : c.closed.tokenUntil = c.tokenUntil := by
  unfold Controller.closed
  split <;> rfl

/-- The controller after a line of an open dialogue. -/
theorem completeLine_open {now : Nat} {c : Controller} (hc : Open now c) :
    Ends (completeLine now) c
      (fun finished c' =>
        if finished then Over now c' ∧ c'.lineEnd = true
        else Open now c' ∧ c'.unframedCmuxResult = false)
      fun _ c' => c'.phase = .failed := by
  refine (completeLine_spec now c).mono ?_ fun _ _ h => h.1
  rintro finished _ ⟨c₁, htaken, rfl, hover⟩
  unfold Controller.closed
  by_cases hsettled : c₁.phase = .settling ∨ c₁.phase = .ready
  · have hreached := htaken.closing hc.clock hc.token hc.not_settled hsettled
    rw [if_pos (hover.mpr hsettled), if_pos hsettled]
    exact ⟨⟨hreached.clock, hreached.token, hreached.phase⟩, rfl⟩
  · have hreached := htaken.open hc hsettled
    rw [if_neg fun h => hsettled (hover.mp h), if_neg hsettled]
    exact ⟨hreached, unframed_of_record htaken.frame.1⟩

/-- How far a line of an open dialogue leads. -/
def Reaches (now : Nat) (finished : Bool) (c : Controller) : Prop :=
  if finished then Over now c ∧ c.lineEnd = true else Open now c

theorem completeLine_reaches {now : Nat} {c : Controller} (hc : Open now c) :
    Ends (completeLine now) c (Reaches now) fun _ c' => c'.phase = .failed := by
  refine (completeLine_open hc).mono ?_ fun _ _ h => h
  intro finished c' h
  cases finished with
  | true => exact h
  | false => exact h.1

/-! ### The beginning of a piece -/

/-- What happens before the bytes are read: whether they are for the multiplexer. -/
def arrive (now : Nat) (first : Option UInt8) : Step Bool := do
  clock now
  if ← feedBoundary now first.toList then return true
  else
    tick now
    let c ← get
    return decide (c.phase = .settling ∨ c.phase = .ready)

theorem feedBoundary_head (now : Nat) (input : List UInt8) :
    feedBoundary now input.head?.toList = feedBoundary now input := by
  cases input with
  | nil => rfl
  | cons _ _ => rfl

/-- `feed` is the arrival of its first byte, and then the loop. -/
theorem feed_eq (now : Nat) (input : List UInt8) :
    feed now input = (do
      if ← arrive now input.head? then handOff input 0
      else if input.length > chatBytes then fail .inputTooLarge
      else feedLoop now input 0 input) := by
  unfold feed arrive
  rw [feedBoundary_head]
  simp only [bind_assoc]
  refine bind_congr fun _ => bind_congr fun whole => ?_
  cases whole with
  | true => rfl
  | false =>
      simp only [Bool.false_eq_true, if_false, bind_assoc, pure_bind, decide_eq_true_eq]

/-- Between two pieces, or where the first byte of one did not end a result. -/
structure Free (now : Nat) (c : Controller) : Prop where
  clock : c.lastNow = now
  token : c.tokenUntil = none
  phase : c.phase ≠ .failed

/-- The clock never leaves an open dialogue behind its time. -/
theorem Ticked.reached {now : Nat} {c c' : Controller} (h : Ticked now c c') (hc : Free now c) :
    if c'.phase = .settling ∨ c'.phase = .ready then Over now c' else Open now c' := by
  cases h with
  | held due htoken _ => exact absurd (hc.token.symm.trans htoken) (by simp)
  | taken due htoken _ _ _ => exact absurd (hc.token.symm.trans htoken) (by simp)
  | still _ hremains =>
      split
      · rename_i hsettled
        refine ⟨rfl, hc.token, ?_⟩
        exact hsettled.elim (fun h => .inr ⟨h, hremains⟩) .inl
      · rename_i hsettled
        refine ⟨rfl, hc.token, hremains, ?_⟩
        have halive := hc.phase
        show c.phase = .waitingReady ∨ c.phase = .writing ∨ c.phase = .reading
        cases hphase : c.phase <;> simp_all
  | begun _ _ => exact open_starting _ _ rfl hc.token
  | retried _ _ _ => exact open_starting _ _ rfl hc.token
  | settled _ _ => exact Over.mk rfl hc.token (.inl rfl)
  | ready _ hphase =>
      rw [if_pos (Or.inr hphase)]
      exact ⟨rfl, hc.token, .inl hphase⟩

theorem clock_now {now : Nat} {c : Controller} (hclock : c.lastNow = now)
    (hphase : c.phase ≠ .failed) : clock now c = .ok () c := by
  unfold clock
  rw [run_get_bind, if_neg hphase, if_neg (by omega)]
  subst hclock
  rfl

theorem clock_failed (now : Nat) {c : Controller} (h : c.phase = .failed) :
    clock now c = .error .failed c := by
  unfold clock
  rw [run_get_bind, if_pos h]
  rfl

theorem feedBoundary_free (now : Nat) {c : Controller} (htoken : c.tokenUntil = none)
    (input : List UInt8) : feedBoundary now input c = .ok false c := by
  unfold feedBoundary
  rw [run_get_bind, htoken]
  rfl

/-- Before the deadline a tick changes nothing. -/
theorem tick_still {now : Nat} {c : Controller} (hc : Free now c)
    (htime : now < c.deadline ∨ c.phase = .ready) : tick now c = .ok () c := by
  unfold tick
  rw [run_bind_ok (clock_now hc.clock hc.phase), run_get_bind, hc.token]
  dsimp only
  by_cases hremains : remains c.deadline now = true
  · rw [if_pos hremains]
    rfl
  · rw [if_neg hremains, htime.resolve_left fun h => hremains (decide_eq_true h)]
    rfl

/-- Where the clock changes nothing, the bytes are read or handed off at once. -/
theorem arrive_still {now : Nat} {c : Controller} (hc : Free now c)
    (htime : now < c.deadline ∨ c.phase = .ready) (first : Option UInt8) :
    arrive now first c = .ok (decide (c.phase = .settling ∨ c.phase = .ready)) c := by
  unfold arrive
  rw [run_bind_ok (clock_now hc.clock hc.phase), run_bind_ok (feedBoundary_free now hc.token _)]
  rw [if_neg (by simp), run_bind_ok (tick_still hc htime), run_get_bind]
  rfl

theorem Over.free {now : Nat} {c : Controller} (h : Over now c) : Free now c :=
  ⟨h.clock, h.token, by rcases h.settled with hp | hp <;> simp [hp]⟩

theorem Open.free {now : Nat} {c : Controller} (h : Open now c) : Free now c :=
  ⟨h.clock, h.token, by rcases h.phase with hp | hp | hp <;> simp [hp]⟩

theorem feed_over {now : Nat} {c : Controller} (h : Over now c) (input : List UInt8) :
    feed now input c = handOff input 0 c := by
  have htime : now < c.deadline ∨ c.phase = .ready := h.phase.symm.imp And.right id
  rw [feed_eq, run_bind_ok (arrive_still h.free htime _)]
  simp [h.settled]

theorem feed_open {now : Nat} {c : Controller} (h : Open now c) {input : List UInt8}
    (hlength : input.length ≤ chatBytes) : feed now input c = feedLoop now input 0 input c := by
  rw [feed_eq, run_bind_ok (arrive_still h.free (.inl h.time) _)]
  simp [h.not_settled, Nat.not_lt.mpr hlength]

theorem feed_failed (now : Nat) {c : Controller} (h : c.phase = .failed) (input : List UInt8) :
    feed now input c = .error .failed c := by
  unfold feed
  exact run_bind_error (clock_failed now h)

/-- The first byte of a piece either ends the dialogue or leaves no result waiting. -/
theorem feedBoundary_some {now : Nat} {c : Controller} (byte : UInt8) (hc : Sound c)
    (hclock : c.lastNow = now) (hphase : c.phase ≠ .failed) :
    Ends (feedBoundary now [byte]) c
      (fun finished c' =>
        if finished then Over now c' ∧ c'.lineEnd = true else Free now c' ∧ GoesOn c' [byte])
      fun _ c' => c'.phase = .failed := by
  unfold feedBoundary
  rw [ends_bind, ends_get]
  cases htoken : c.tokenUntil with
  | none =>
      have hfree : c.unframedCmuxResult = false := by
        rw [← hc hphase]
        simp [Controller.tokenPending, htoken]
      exact (ends_pure _).mpr ⟨⟨hclock, htoken, hphase⟩, goesOn_of_false hfree _⟩
  | some due =>
      dsimp only [List.head?_cons]
      rw [ends_bind, ends_set, ends_ite]
      split
      · refine (completeLine_spec now _).mono ?_ fun _ _ h => h.1
        rintro finished _ ⟨c₁, htaken, rfl, hover⟩
        unfold Controller.closed
        by_cases hsettled : c₁.phase = .settling ∨ c₁.phase = .ready
        · have hreached := htaken.closing hclock rfl (by simp [hc.reading hphase htoken]) hsettled
          rw [if_pos (hover.mpr hsettled), if_pos hsettled]
          exact ⟨⟨hreached.clock, hreached.token, hreached.phase⟩, rfl⟩
        · obtain ⟨-, hlast, hnone⟩ := htaken.frame
          rw [if_neg fun h => hsettled (hover.mp h), if_neg hsettled]
          exact ⟨⟨hlast.trans hclock, hnone, htaken.alive hphase⟩,
            goesOn_of_false (unframed_of_record htaken.frame.1) _⟩
      · rename_i hboundary
        refine (ends_pure _).mpr ⟨⟨hclock, rfl, hphase⟩, fun _ => ⟨byte, rfl, ?_⟩⟩
        exact printable_of_boundary (by simpa using hboundary)

/-- The clock reads no bytes. -/
theorem Ticked.goesOn {now : Nat} {c c' : Controller} (h : Ticked now c c') (hc : Free now c)
    {rest : List UInt8} (hgoes : GoesOn c rest) : GoesOn c' rest := by
  cases h with
  | held due htoken _ => exact absurd (hc.token.symm.trans htoken) (by simp)
  | taken due htoken _ _ _ => exact absurd (hc.token.symm.trans htoken) (by simp)
  | still _ _ => exact hgoes
  | begun _ _ => exact goesOn_of_false (unframed_of_record rfl) rest
  | retried _ _ _ => exact goesOn_of_false (unframed_of_record rfl) rest
  | settled _ _ => exact goesOn_of_false (unframed_of_phase (by simp)) rest
  | ready _ _ => exact hgoes

/-- A byte arrives that another one follows. -/
theorem arrive_some (now : Nat) {c : Controller} (byte : UInt8) (hc : Sound c) :
    Ends (arrive now (some byte)) c
      (fun finished c' => if finished then Over now c' else Open now c' ∧ GoesOn c' [byte])
      fun _ c' => c'.phase = .failed := by
  unfold arrive
  rw [ends_bind]
  refine (clock_spec now c).mono ?_ fun _ _ h => h.1
  rintro _ _ ⟨hphase, -, rfl⟩
  rw [ends_bind]
  refine (feedBoundary_some byte (c := { c with lastNow := now }) hc rfl hphase).mono ?_
    fun _ _ h => h
  intro whole c₁ hreached
  cases whole with
  | true => exact (ends_pure _).mpr hreached.1
  | false =>
      refine ends_bind.mpr ((tick_spec now c₁).mono ?_ fun _ _ h => h.1)
      intro _ c₂ hticked
      rw [ends_bind, ends_get, ends_pure]
      have hends := hticked.reached hreached.1
      have hgoes := hticked.goesOn hreached.1 hreached.2
      split at hends
      · simp [*]
      · simp [*]

/-! ### One byte -/

/-- One byte of the input, with the byte that follows it: whether the dialogue is over. -/
def digest (now : Nat) (byte : UInt8) (next : Option UInt8) : Step Bool := do
  if ← feedByte now byte next then completeLine now
  else return false

theorem feedLoop_cons (now : Nat) (input : List UInt8) (index : Nat) (byte : UInt8)
    (rest : List UInt8) :
    feedLoop now input index (byte :: rest) = (do
      if ← digest now byte rest.head? then handOff input (index + 1)
      else feedLoop now input (index + 1) rest) := by
  conv => lhs; unfold feedLoop
  unfold digest
  rw [bind_assoc]
  refine bind_congr fun complete => ?_
  cases complete with
  | true => rfl
  | false => rfl

theorem feedByte_lineEnd (now : Nat) {byte : UInt8} (hbyte : byte = 0x0d ∨ byte = 0x0a)
    (next : Option UInt8) (c : Controller) :
    feedByte now byte next c = .ok (decide (c.record ≠ [])) c := by
  unfold feedByte
  rw [run_get_bind, if_pos hbyte]
  rfl

theorem feedByte_other (now : Nat) {byte : UInt8} (hbyte : ¬ (byte = 0x0d ∨ byte = 0x0a))
    (hprintable : ¬ isPrintable byte = true) (next : Option UInt8) (c : Controller) :
    feedByte now byte next c = .ok false c := by
  unfold feedByte
  rw [run_get_bind, if_neg hbyte, if_neg hprintable]
  rfl

theorem not_lineEnd_of_printable {byte : UInt8} (h : isPrintable byte = true) :
    ¬ (byte = 0x0d ∨ byte = 0x0a) := by
  rintro (rfl | rfl)
  · exact absurd h (by decide)
  · exact absurd h (by decide)

theorem feedByte_full (now : Nat) {byte : UInt8} (hprintable : isPrintable byte = true)
    (next : Option UInt8) {c : Controller} (hfull : c.record.length = chatBytes) :
    feedByte now byte next c = .error .recordTooLarge (c.failed .recordTooLarge) := by
  unfold feedByte
  rw [run_get_bind, if_neg (not_lineEnd_of_printable hprintable), if_pos hprintable, if_pos hfull]
  rfl

theorem feedByte_printable (now : Nat) {byte : UInt8} (hprintable : isPrintable byte = true)
    (next : Option UInt8) {c : Controller} (hfull : ¬ c.record.length = chatBytes)
    (hresult : (c.with byte).unframedCmuxResult = false) :
    feedByte now byte next c = .ok false (c.with byte) := by
  unfold feedByte
  rw [run_get_bind, if_neg (not_lineEnd_of_printable hprintable), if_pos hprintable,
    if_neg hfull, run_set_bind, run_get_bind]
  exact congrFun (if_pos (by simpa [Controller.with] using hresult)) _

theorem feedByte_result (now : Nat) {byte : UInt8} (hprintable : isPrintable byte = true)
    (next : UInt8) {c : Controller} (hfull : ¬ c.record.length = chatBytes)
    (hresult : (c.with byte).unframedCmuxResult = true) :
    feedByte now byte (some next) c =
      .ok (tokenBoundary (c.with byte).record next) (c.with byte) := by
  unfold feedByte
  rw [run_get_bind, if_neg (not_lineEnd_of_printable hprintable), if_pos hprintable,
    if_neg hfull, run_set_bind, run_get_bind]
  exact congrFun (if_neg (by simpa [Controller.with] using hresult)) _

/-- A result at the end of the piece is held, -/
theorem feedByte_held {now : Nat} {byte : UInt8} (hprintable : isPrintable byte = true)
    {c : Controller} (hfull : ¬ c.record.length = chatBytes)
    (hresult : (c.with byte).unframedCmuxResult = true) (hclock : now + tokenSettleMs ≤ u64Max) :
    feedByte now byte none c =
      .ok false { c.with byte with tokenUntil := some (now + tokenSettleMs) } := by
  unfold feedByte
  rw [run_get_bind, if_neg (not_lineEnd_of_printable hprintable), if_pos hprintable,
    if_neg hfull, run_set_bind, run_get_bind]
  refine (congrFun (if_neg (by simpa [Controller.with] using hresult)) _).trans ?_
  unfold checkedAdd
  rw [if_pos hclock]
  rfl

/-- unless its time is past the end of the clock. -/
theorem feedByte_overflow {now : Nat} {byte : UInt8} (hprintable : isPrintable byte = true)
    {c : Controller} (hfull : ¬ c.record.length = chatBytes)
    (hresult : (c.with byte).unframedCmuxResult = true)
    (hclock : ¬ now + tokenSettleMs ≤ u64Max) :
    feedByte now byte none c = .error .clockOverflow ((c.with byte).failed .clockOverflow) := by
  unfold feedByte
  rw [run_get_bind, if_neg (not_lineEnd_of_printable hprintable), if_pos hprintable,
    if_neg hfull, run_set_bind, run_get_bind]
  refine (congrFun (if_neg (by simpa [Controller.with] using hresult)) _).trans ?_
  unfold checkedAdd
  rw [if_neg hclock]
  rfl

/-- **The byte that follows is looked at now or when it comes.** Unless a result ends with
this byte, the next one is not looked at; and where one does, the next piece begins with
what its first byte decides. -/
theorem digest_next {now : Nat} {c : Controller} (hc : Open now c) (byte next : UInt8)
    (hclock : now + tokenSettleMs ≤ u64Max) :
    (digest now byte (some next) c = digest now byte none c ∧
      Ends (digest now byte none) c (Reaches now) fun _ c' => c'.phase = .failed) ∨
    ∃ c', digest now byte none c = .ok false c' ∧ Held now c' ∧
      feedBoundary now [next] c' = digest now byte (some next) c ∧
      Ends (digest now byte (some next)) c (Reaches now) fun _ c' => c'.phase = .failed := by
  unfold digest
  -- A line end is acted on at once.
  by_cases hline : byte = 0x0d ∨ byte = 0x0a
  · refine .inl ⟨?_, ?_⟩
    · rw [run_bind_ok (feedByte_lineEnd now hline _ c), run_bind_ok (feedByte_lineEnd now hline _ c)]
    · rw [ends_bind, ends_of_ok (feedByte_lineEnd now hline _ c), ends_ite]
      split
      · exact completeLine_reaches hc
      · exact (ends_pure _).mpr hc
  by_cases hprintable : isPrintable byte = true
  -- Any other byte that cannot be printed is left out.
  swap
  · refine .inl ⟨?_, ?_⟩
    · rw [run_bind_ok (feedByte_other now hline hprintable _ c),
        run_bind_ok (feedByte_other now hline hprintable _ c)]
    · rw [ends_bind, ends_of_ok (feedByte_other now hline hprintable _ c)]
      exact (ends_pure _).mpr hc
  -- A full record fails, with whatever follows.
  by_cases hfull : c.record.length = chatBytes
  · refine .inl ⟨?_, ?_⟩
    · rw [run_bind_error (feedByte_full now hprintable _ hfull),
        run_bind_error (feedByte_full now hprintable _ hfull)]
    · rw [ends_bind, ends_of_error (feedByte_full now hprintable _ hfull)]
      rfl
  have hopen : Open now (c.with byte) := ⟨hc.clock, hc.token, hc.time, hc.phase⟩
  -- The byte behind it matters only when this one completes a result.
  cases hresult : (c.with byte).unframedCmuxResult with
  | false =>
      refine .inl ⟨?_, ?_⟩
      · rw [run_bind_ok (feedByte_printable now hprintable _ hfull hresult),
          run_bind_ok (feedByte_printable now hprintable _ hfull hresult)]
      · rw [ends_bind, ends_of_ok (feedByte_printable now hprintable _ hfull hresult)]
        exact (ends_pure _).mpr hopen
  | true =>
      have hreading : c.phase = .reading := by
        by_contra hphase
        exact absurd (hresult.symm.trans (unframed_of_phase hphase)) (by simp)
      refine .inr ⟨_, run_bind_ok (feedByte_held hprintable hfull hresult hclock), ?_, ?_, ?_⟩
      · exact ⟨hc.clock, hreading, _, rfl, Nat.lt_add_of_pos_right (by decide)⟩
      -- Setting the token and taking it back leaves the controller as it was.
      · have hback : { c.with byte with tokenUntil := none } = c.with byte := by
          have htoken := hc.token
          cases c
          cases htoken
          rfl
        rw [run_bind_ok (feedByte_result now hprintable next hfull hresult)]
        unfold feedBoundary
        rw [run_get_bind]
        dsimp only [List.head?_cons]
        rw [run_set_bind, hback]
      · rw [ends_bind, ends_of_ok (feedByte_result now hprintable next hfull hresult), ends_ite]
        split
        · exact completeLine_reaches hopen
        · exact (ends_pure _).mpr hopen

/-! ### The controller after a piece -/

theorem handOff_over {now : Nat} {c : Controller} (hc : Over now c) (input : List UInt8)
    (offset : Nat) :
    Ends (handOff input offset) c (fun _ c' => Over now c') fun _ c' => c'.phase = .failed := by
  refine (handOff_spec input offset c).mono ?_ fun _ _ h => h.elim
  rintro _ _ (rfl | rfl)
  · exact hc
  · exact ⟨hc.clock, hc.token, hc.phase⟩

/-- Between two pieces: the clock has been read, and nothing is left to do at this time. -/
def Calm (now : Nat) (c : Controller) : Prop :=
  Sound c ∧ (Over now c ∨ Open now c ∨ Held now c)

theorem Over.calm {now : Nat} {c : Controller} (h : Over now c) : Calm now c :=
  ⟨h.sound, .inl h⟩

theorem Open.calm {now : Nat} {c : Controller} (h : Open now c) (hgoes : GoesOn c []) :
    Calm now c := by
  refine ⟨sound_of_free h.token ?_, .inr (.inl h)⟩
  by_contra hresult
  obtain ⟨byte, hbyte, -⟩ := hgoes (by simpa using hresult)
  cases hbyte

/-- What one byte leaves, with the bytes that follow it. -/
def Left (now : Nat) (rest : List UInt8) (finished : Bool) (c : Controller) : Prop :=
  if finished then Over now c else Open now c ∧ GoesOn c rest ∨ rest = [] ∧ Calm now c

theorem completeLine_left {now : Nat} {c : Controller} (hc : Open now c) (rest : List UInt8) :
    Ends (completeLine now) c (Left now rest) fun _ c' => c'.phase = .failed := by
  refine (completeLine_open hc).mono ?_ fun _ _ h => h
  intro finished c' h
  cases finished with
  | true => exact h.1
  | false => exact .inl ⟨h.1, goesOn_of_false h.2 rest⟩

/-- **What a digested byte leaves**, with the rest of the piece still to come. -/
theorem digest_left {now : Nat} {c : Controller} (hc : Open now c) (byte : UInt8)
    (rest : List UInt8) (hgoes : GoesOn c (byte :: rest)) :
    Ends (digest now byte rest.head?) c (Left now rest) fun _ c' => c'.phase = .failed := by
  -- A byte that adds nothing to the record leaves its boundary where it was.
  have hsame : ¬ isPrintable byte = true → GoesOn c rest := by
    intro hprintable hresult
    obtain ⟨_, hbyte, hyes⟩ := hgoes hresult
    cases hbyte
    exact absurd hyes hprintable
  unfold digest
  rw [ends_bind]
  by_cases hline : byte = 0x0d ∨ byte = 0x0a
  · rw [ends_of_ok (feedByte_lineEnd now hline _ c), ends_ite]
    split
    · exact completeLine_left hc rest
    · exact (ends_pure _).mpr
        (.inl ⟨hc, hsame fun h => not_lineEnd_of_printable h hline⟩)
  by_cases hprintable : isPrintable byte = true
  -- Other control bytes are left out.
  swap
  · rw [ends_of_ok (feedByte_other now hline hprintable _ c)]
    exact (ends_pure _).mpr (.inl ⟨hc, hsame hprintable⟩)
  by_cases hfull : c.record.length = chatBytes
  · rw [ends_of_error (feedByte_full now hprintable _ hfull)]
    rfl
  have hopen : Open now (c.with byte) := ⟨hc.clock, hc.token, hc.time, hc.phase⟩
  cases hresult : (c.with byte).unframedCmuxResult with
  | false =>
      rw [ends_of_ok (feedByte_printable now hprintable _ hfull hresult)]
      exact (ends_pure _).mpr (.inl ⟨hopen, goesOn_of_false hresult rest⟩)
  | true =>
      -- A result is complete: the byte behind it decides, if it is there.
      cases rest with
      | cons next rest =>
          rw [List.head?_cons, ends_of_ok (feedByte_result now hprintable next hfull hresult),
            ends_ite]
          split
          · exact completeLine_left hopen _
          · rename_i hboundary
            refine (ends_pure _).mpr (.inl ⟨hopen, fun _ => ⟨next, rfl, ?_⟩⟩)
            exact printable_of_boundary (by simpa using hboundary)
      | nil =>
          have hreading : c.phase = .reading := by
            by_contra hphase
            exact absurd (hresult.symm.trans (unframed_of_phase hphase)) (by simp)
          -- If it is not, the result is held, and the time for it must fit.
          by_cases hclock : now + tokenSettleMs ≤ u64Max
          · rw [List.head?_nil, ends_of_ok (feedByte_held hprintable hfull hresult hclock)]
            refine (ends_pure _).mpr (.inr ⟨rfl, fun _ => hresult.symm, .inr (.inr ?_)⟩)
            exact ⟨hc.clock, hreading, _, rfl, Nat.lt_add_of_pos_right (by decide)⟩
          · rw [List.head?_nil, ends_of_error (feedByte_overflow hprintable hfull hresult hclock)]
            rfl

/-- The loop ends with a chat that can be fed again. -/
theorem feedLoop_calm (now : Nat) (input rest : List UInt8) (index : Nat) {c : Controller}
    (hc : Open now c) (hgoes : GoesOn c rest) :
    Ends (feedLoop now input index rest) c (fun _ c' => Calm now c')
      fun _ c' => c'.phase = .failed := by
  induction rest generalizing index c with
  | nil => exact (ends_pure _).mpr (hc.calm hgoes)
  | cons byte rest ih =>
      rw [feedLoop_cons, ends_bind]
      refine (digest_left hc byte rest hgoes).mono ?_ fun _ _ h => h
      intro finished c' hleft
      cases finished with
      | true => exact (handOff_over hleft input (index + 1)).mono (fun _ _ h => h.calm) fun _ _ h => h
      | false =>
          rcases hleft with ⟨hopen, hgoes'⟩ | ⟨rfl, hcalm⟩
          · exact ih (index + 1) hopen hgoes'
          · exact (ends_pure _).mpr hcalm

/-- **So does `feed`.** -/
theorem feed_calm (now : Nat) {c : Controller} (hc : Sound c) (byte : UInt8)
    (rest : List UInt8) :
    Ends (feed now (byte :: rest)) c (fun _ c' => Calm now c') fun _ c' => c'.phase = .failed := by
  rw [feed_eq, ends_bind]
  refine (arrive_some now byte hc).mono ?_ fun _ _ h => h
  intro finished c' hreached
  cases finished with
  | true => exact (handOff_over hreached _ 0).mono (fun _ _ h => h.calm) fun _ _ h => h
  | false =>
      rw [if_neg (by simp), ends_ite]
      split
      · exact ends_fail.mpr rfl
      · exact feedLoop_calm now _ _ 0 hreached.1 hreached.2

/-- A tick keeps the chat sound. -/
theorem Ticked.sound {now : Nat} {c c' : Controller} (h : Ticked now c c') (hc : Sound c) :
    Sound c' := by
  cases h with
  | held due htoken hdue => exact hc
  | taken due htoken _ c' htaken =>
      obtain ⟨hrecord, -, hnone⟩ := htaken.frame
      exact sound_of_free (by simpa using hnone) (unframed_of_record (by simpa using hrecord))
  | still htoken _ => exact hc
  | begun htoken _ => exact sound_of_free htoken (unframed_of_record rfl)
  | retried htoken _ _ => exact sound_of_free htoken (unframed_of_record rfl)
  | settled htoken _ => exact sound_of_free htoken (unframed_of_phase (by simp))
  | ready htoken _ => exact hc

end Mindone.Mux.Chat
