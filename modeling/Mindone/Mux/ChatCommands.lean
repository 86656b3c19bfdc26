import Mindone.Mux.ChatSteps

/-!
# Mindone.Mux.ChatCommands

**The commands of the dialogue come in order.** `Lawful` says which histories a dialogue can
have: a command is written to its end, then its answer is awaited, and only `OK` (for the
first `AT` also `ERROR`, or no answer in time) leads to the next one. Every controller that
can be reached has a lawful history that agrees with its phase, and a lawful history is one
of the command streams as far as it has come.
-/

namespace Mindone.Mux.Chat

open Mindone.Lib

/-! ### The streams -/

/-- A command as it is written. -/
def Config.text (config : Config) (command : Command) : List UInt8 :=
  commandWords config.pin config.baudIndex config.frameLimit command ++ [0x0d]

/-- The commands before `command`. -/
def Config.before (config : Config) (retry : Bool) (command : Command) : List Command :=
  let first := .at :: if retry then [.atRetry] else []
  match command with
  | .at => []
  | .atRetry => [.at]
  | .reset => first
  | .echoOff => first ++ [.reset]
  | .pin => first ++ [.reset, .echoOff]
  | .cmux => first ++ [.reset, .echoOff] ++ if config.pin.isSome then [.pin] else []

/-- The commands of a dialogue, with or without a second `AT`. -/
def Config.plan (config : Config) (retry : Bool) : List Command :=
  config.before retry .cmux ++ [.cmux]

/-- The command after one that was answered `OK`. -/
def Config.following (config : Config) : Command → Option Command
  | .at | .atRetry => some .reset
  | .reset => some .echoOff
  | .echoOff => some (if config.pin.isSome then .pin else .cmux)
  | .pin => some .cmux
  | .cmux => none

def startedCommands (history : List Mark) : List Command :=
  history.filterMap fun mark =>
    match mark with
    | .started command => some command
    | _ => none

/-- The bytes that were reported as written. -/
def acceptedBytes (history : List Mark) : List UInt8 :=
  history.flatMap fun mark =>
    match mark with
    | .accepted bytes => bytes
    | _ => []

@[simp] theorem startedCommands_append (history more : List Mark) :
    startedCommands (history ++ more) = startedCommands history ++ startedCommands more :=
  List.filterMap_append ..

@[simp] theorem acceptedBytes_append (history more : List Mark) :
    acceptedBytes (history ++ more) = acceptedBytes history ++ acceptedBytes more :=
  List.flatMap_append ..

theorem acceptedBytes_accepted (bytes : List UInt8) : acceptedBytes [.accepted bytes] = bytes := by
  simp [acceptedBytes]

/-! ### Lawful histories -/

/-- How far a dialogue has come. -/
inductive Stage
  | idle
  | writing (command : Command) (written : List UInt8)
  | reading (command : Command)
  /-- The command was answered `OK`. -/
  | passed (command : Command)
  /-- The first `AT` was not answered `OK`. -/
  | again
  | rejected (command : Command)

/-- A command may be started. -/
inductive Starts (config : Config) : Stage → Command → Prop
  | first : Starts config .idle .at
  | again : Starts config .again .atRetry
  | next {command next : Command} (h : config.following command = some next) :
      Starts config (.passed command) next

inductive Lawful (config : Config) : List Mark → Stage → Prop
  | nil : Lawful config [] .idle
  | started {history : List Mark} {stage : Stage} {command : Command}
      (h : Lawful config history stage) (hstarts : Starts config stage command) :
      Lawful config (history ++ [.started command]) (.writing command [])
  | part {history : List Mark} {command : Command} {written bytes : List UInt8}
      (h : Lawful config history (.writing command written))
      (hpart : written ++ bytes <+: config.text command) :
      Lawful config (history ++ [.accepted bytes]) (.writing command (written ++ bytes))
  | whole {history : List Mark} {command : Command} {written bytes : List UInt8}
      (h : Lawful config history (.writing command written))
      (hwhole : written ++ bytes = config.text command) :
      Lawful config (history ++ [.accepted bytes]) (.reading command)
  | ok {history : List Mark} {command : Command}
      (h : Lawful config history (.reading command)) :
      Lawful config (history ++ [.answered .ok]) (.passed command)
  | noted {history : List Mark} {command : Command} {record : Record}
      (h : Lawful config history (.reading command)) (hok : record ≠ .ok)
      (hrejected : record ≠ .rejected) :
      Lawful config (history ++ [.answered record]) (.reading command)
  | retried {history : List Mark} {mark : Mark}
      (h : Lawful config history (.reading .at))
      (hmark : mark = .answered .rejected ∨ mark = .timedOut) :
      Lawful config (history ++ [mark]) .again
  | rejected {history : List Mark} {command : Command}
      (h : Lawful config history (.reading command)) :
      Lawful config (history ++ [.answered .rejected]) (.rejected command)

/-! ### What a lawful history tells -/

/-- The history ends with a command, of which `written` was written, and with `last`. -/
def Since (config : Config) (history : List Mark) (command : Command) (written : List UInt8)
    (last : List Mark) : Prop :=
  ∃ retry earlier since, history = earlier ++ .started command :: (since ++ last) ∧
    startedCommands since = [] ∧ acceptedBytes since = written ∧
    startedCommands earlier = config.before retry command ∧
    acceptedBytes earlier = (config.before retry command).flatMap config.text ∧
    config.before retry command ++ [command] <+: config.plan retry

def Told (config : Config) (history : List Mark) : Stage → Prop
  | .idle => history = []
  | .writing command written =>
      Since config history command written [] ∧ written <+: config.text command
  | .reading command => Since config history command (config.text command) []
  | .passed command => Since config history command (config.text command) [.answered .ok]
  | .again => ∃ mark, (mark = .answered .rejected ∨ mark = .timedOut) ∧
      Since config history .at (config.text .at) [mark]
  | .rejected command =>
      Since config history command (config.text command) [.answered .rejected]

/-- What comes after a command that was answered `OK` is the next command of the plan. -/
theorem before_following {config : Config} {command next : Command} {retry : Bool}
    (hnext : config.following command = some next)
    (hplan : config.before retry command ++ [command] <+: config.plan retry) :
    ∃ retry', config.before retry' next = config.before retry command ++ [command] ∧
      config.before retry' next ++ [next] <+: config.plan retry' := by
  cases command with
  | «at» =>
      cases hnext
      exact ⟨false, rfl, by simp [Config.plan, Config.before]⟩
  | atRetry =>
      cases hnext
      exact ⟨true, rfl, by simp [Config.plan, Config.before]⟩
  | reset =>
      cases hnext
      exact ⟨retry, rfl, by simp [Config.plan, Config.before]⟩
  | echoOff =>
      cases hpin : config.pin.isSome with
      | true =>
          simp only [Config.following, hpin, if_true, Option.some.injEq] at hnext
          subst hnext
          exact ⟨retry, by simp [Config.before], by simp [Config.plan, Config.before, hpin]⟩
      | false =>
          simp only [Config.following, hpin, Bool.false_eq_true, if_false,
            Option.some.injEq] at hnext
          subst hnext
          exact ⟨retry, by simp [Config.before, hpin], by simp [Config.plan]⟩
  | pin =>
      cases hnext
      cases hpin : config.pin.isSome with
      | true => exact ⟨retry, by simp [Config.before, hpin], by simp [Config.plan]⟩
      | false => exact absurd hplan (by cases retry <;> simp [Config.plan, Config.before, hpin])
  | cmux => cases hnext

/-- More marks of the same command. -/
theorem Since.more {config : Config} {history : List Mark} {command : Command}
    {written written' : List UInt8} (h : Since config history command written []) {mark : Mark}
    (hmark : startedCommands [mark] = []) (hmore : written ++ acceptedBytes [mark] = written') :
    Since config (history ++ [mark]) command written' [] := by
  obtain ⟨retry, earlier, since, rfl, hnone, rfl, hstarted, haccepted, hplan⟩ := h
  refine ⟨retry, earlier, since ++ [mark], by simp, ?_, ?_, hstarted, haccepted, hplan⟩
  · rw [startedCommands_append, hnone, hmark]
    rfl
  · rw [acceptedBytes_append, hmore]

/-- The mark that ends a command. -/
theorem Since.last {config : Config} {history : List Mark} {command : Command}
    {written : List UInt8} (h : Since config history command written []) (mark : Mark) :
    Since config (history ++ [mark]) command written [mark] := by
  obtain ⟨retry, earlier, since, rfl, hrest⟩ := h
  exact ⟨retry, earlier, since, by simp, hrest⟩

/-- All of a command was written, and the next one is started. -/
theorem Since.next {config : Config} {history : List Mark} {command next : Command}
    {mark : Mark} (h : Since config history command (config.text command) [mark])
    (hmark : startedCommands [mark] = [] ∧ acceptedBytes [mark] = [])
    (hnext : ∀ retry, config.before retry command ++ [command] <+: config.plan retry →
      ∃ retry', config.before retry' next = config.before retry command ++ [command] ∧
        config.before retry' next ++ [next] <+: config.plan retry') :
    Since config (history ++ [Mark.started next]) next [] [] := by
  obtain ⟨retry, earlier, since, rfl, hnone, hwritten, hstarted, haccepted, hplan⟩ := h
  obtain ⟨retry', hbefore, hplan'⟩ := hnext retry hplan
  refine ⟨retry', _, [], rfl, rfl, rfl, ?_, ?_, hplan'⟩
  · rw [hbefore, startedCommands_append, hstarted]
    show _ ++ (startedCommands ([Mark.started command] ++ (since ++ [mark]))) = _
    rw [startedCommands_append, startedCommands_append, hnone, hmark.1]
    rfl
  · rw [hbefore, acceptedBytes_append, haccepted, List.flatMap_append]
    show _ ++ (acceptedBytes ([Mark.started command] ++ (since ++ [mark]))) = _
    rw [acceptedBytes_append, acceptedBytes_append, hwritten, hmark.2]
    simp [acceptedBytes]

/-- A lawful history tells what stage it is in. -/
theorem Lawful.told {config : Config} {history : List Mark} {stage : Stage}
    (h : Lawful config history stage) : Told config history stage := by
  induction h with
  | nil => rfl
  | started _ hstarts ih =>
      refine ⟨?_, List.nil_prefix⟩
      cases hstarts with
      | first =>
          cases ih
          exact ⟨false, [], [], rfl, rfl, rfl, rfl, rfl, by simp [Config.plan, Config.before]⟩
      | again =>
          obtain ⟨mark, hmark, hsince⟩ := ih
          refine hsince.next ?_ fun retry _ => ⟨true, rfl, by simp [Config.plan, Config.before]⟩
          rcases hmark with rfl | rfl
          · exact ⟨rfl, rfl⟩
          · exact ⟨rfl, rfl⟩
      | next hnext => exact ih.next ⟨rfl, rfl⟩ fun retry hplan => before_following hnext hplan
  | part _ hpart ih => exact ⟨ih.1.more rfl (by rw [acceptedBytes_accepted]), hpart⟩
  | whole _ hwhole ih => exact ih.1.more rfl (by rw [acceptedBytes_accepted, hwhole])
  | ok _ ih => exact ih.last _
  | noted _ _ _ ih => exact ih.more rfl (List.append_nil _)
  | retried _ hmark ih => exact ⟨_, hmark, ih.last _⟩
  | rejected _ ih => exact ih.last _

/-! ### The controller and its history -/

/-- The PIN is kept until its command comes. -/
def PinKept (config : Config) (c : Controller) (command : Command) : Prop :=
  command ≠ .pin → command ≠ .cmux → c.pin = config.pin

/-- The phase of the controller is how far its history has come. -/
inductive Agrees (config : Config) (c : Controller) : Stage → Prop
  | waitingReady (hphase : c.phase = .waitingReady) (hpin : c.pin = config.pin) :
      Agrees config c .idle
  | writing (command : Command) (hphase : c.phase = .writing) (hcommand : c.command = some command)
      (htransmit : c.transmit = config.text command) (hpin : PinKept config c command) :
      Agrees config c (.writing command (c.transmit.take c.accepted))
  | reading (command : Command) (hphase : c.phase = .reading) (hcommand : c.command = some command)
      (hpin : PinKept config c command) : Agrees config c (.reading command)
  | finished (hphase : c.phase = .settling ∨ c.phase = .ready) : Agrees config c (.passed .cmux)
  | failed (stage : Stage) (hphase : c.phase = .failed) : Agrees config c stage

/-- **The history of a controller is lawful and agrees with its phase.** -/
structure Ordered (config : Config) (c : Controller) : Prop where
  settings : c.phase ≠ .failed → c.baudIndex = config.baudIndex ∧ c.frameLimit = config.frameLimit
  history : ∃ stage, Lawful config c.history stage ∧ Agrees config c stage

theorem Ordered.of_same {config : Config} {c c' : Controller} (h : Ordered config c)
    (hphase : c'.phase = c.phase) (hcommand : c'.command = c.command) (hpin : c'.pin = c.pin)
    (hsettings : c'.baudIndex = c.baudIndex ∧ c'.frameLimit = c.frameLimit)
    (hwrite : c'.transmit = c.transmit ∧ c'.accepted = c.accepted)
    (hhistory : c'.history = c.history) : Ordered config c' := by
  obtain ⟨stage, hlawful, hagrees⟩ := h.history
  refine ⟨?_, stage, hhistory ▸ hlawful, ?_⟩
  · rw [hphase, hsettings.1, hsettings.2]
    exact h.settings
  · cases hagrees with
    | waitingReady hp hpin' => exact .waitingReady (hphase.trans hp) (hpin.trans hpin')
    | writing command hp hc ht hpin' =>
        rw [← hwrite.1, ← hwrite.2]
        exact .writing command (hphase.trans hp) (hcommand.trans hc) (hwrite.1.trans ht)
          fun h h' => hpin.trans (hpin' h h')
    | reading command hp hc hpin' =>
        exact .reading command (hphase.trans hp) (hcommand.trans hc)
          fun h h' => hpin.trans (hpin' h h')
    | finished hp => exact .finished (hphase ▸ hp)
    | failed stage hp => exact .failed stage (hphase.trans hp)

/-- Where an answer is awaited. -/
theorem Ordered.reading {config : Config} {c : Controller} (h : Ordered config c)
    (hphase : c.phase = .reading) :
    ∃ command, c.command = some command ∧ PinKept config c command ∧
      Lawful config c.history (.reading command) := by
  obtain ⟨stage, hlawful, hagrees⟩ := h.history
  cases hagrees with
  | waitingReady hp _ => exact absurd (hphase.symm.trans hp) (by simp)
  | writing _ hp _ _ _ => exact absurd (hphase.symm.trans hp) (by simp)
  | reading command _ hcommand hpin => exact ⟨command, hcommand, hpin, hlawful⟩
  | finished hp => exact absurd hp (by simp [hphase])
  | failed _ hp => exact absurd (hphase.symm.trans hp) (by simp)

/-- Where a command is written. -/
theorem Ordered.writing {config : Config} {c : Controller} (h : Ordered config c)
    (hphase : c.phase = .writing) :
    ∃ command, c.command = some command ∧ c.transmit = config.text command ∧
      PinKept config c command ∧
      Lawful config c.history (.writing command (c.transmit.take c.accepted)) := by
  obtain ⟨stage, hlawful, hagrees⟩ := h.history
  cases hagrees with
  | waitingReady hp _ => exact absurd (hphase.symm.trans hp) (by simp)
  | writing command _ hcommand htransmit hpin => exact ⟨command, hcommand, htransmit, hpin, hlawful⟩
  | reading _ hp _ _ => exact absurd (hphase.symm.trans hp) (by simp)
  | finished hp => exact absurd hp (by simp [hphase])
  | failed _ hp => exact absurd (hphase.symm.trans hp) (by simp)

theorem Ordered.waitingReady {config : Config} {c : Controller} (h : Ordered config c)
    (hphase : c.phase = .waitingReady) :
    c.pin = config.pin ∧ Lawful config c.history .idle := by
  obtain ⟨stage, hlawful, hagrees⟩ := h.history
  cases hagrees with
  | waitingReady _ hpin => exact ⟨hpin, hlawful⟩
  | writing _ hp _ _ _ => exact absurd (hphase.symm.trans hp) (by simp)
  | reading _ hp _ _ => exact absurd (hphase.symm.trans hp) (by simp)
  | finished hp => exact absurd hp (by simp [hphase])
  | failed _ hp => exact absurd (hphase.symm.trans hp) (by simp)

theorem Ordered.finished {config : Config} {c : Controller} (h : Ordered config c)
    (hphase : c.phase = .settling ∨ c.phase = .ready) :
    Lawful config c.history (.passed .cmux) := by
  obtain ⟨stage, hlawful, hagrees⟩ := h.history
  cases hagrees with
  | waitingReady hp _ => exact absurd hphase (by simp [hp])
  | writing _ hp _ _ _ => exact absurd hphase (by simp [hp])
  | reading _ hp _ _ => exact absurd hphase (by simp [hp])
  | finished _ => exact hlawful
  | failed _ hp => exact absurd hphase (by simp [hp])

/-! ### What each step keeps -/

/-- The next command of the plan is started. -/
theorem ordered_starting {config : Config} (c : Controller) (command : Command) (now : Nat)
    {stage : Stage} (hlawful : Lawful config c.history stage)
    (hstarts : Starts config stage command) (hpin : command ≠ .cmux → c.pin = config.pin)
    (hsettings : c.baudIndex = config.baudIndex ∧ c.frameLimit = config.frameLimit) :
    Ordered config (c.starting command now) := by
  refine ⟨fun _ => hsettings, _, hlawful.started hstarts, ?_⟩
  have htext : c.words command ++ [0x0d] = config.text command := by
    unfold Controller.words Config.text
    rw [hsettings.1, hsettings.2]
    cases command with
    | cmux => rfl
    | «at» => rfl
    | atRetry => rfl
    | reset => rfl
    | echoOff => rfl
    | pin => rw [hpin (by simp)]
  refine .writing command rfl rfl htext ?_
  intro hnot hcmux
  exact (if_neg hnot).trans (hpin hcmux)

theorem take_offered (c : Controller) (bytes : Nat) :
    c.transmit.take c.accepted ++ c.offered bytes = c.transmit.take (c.accepted + bytes) :=
  List.take_add.symm

/-- A part of the command is reported as written. -/
theorem Lawful.part_offered {config : Config} {c : Controller} {command : Command}
    (h : Lawful config c.history (.writing command (c.transmit.take c.accepted)))
    (htransmit : c.transmit = config.text command) (bytes : Nat) :
    Lawful config (c.history ++ [Mark.accepted (c.offered bytes)])
      (.writing command (c.transmit.take (c.accepted + bytes))) := by
  rw [← take_offered]
  refine h.part ?_
  rw [take_offered, ← htransmit]
  exact List.take_prefix ..

/-- The rest of the command is reported as written. -/
theorem Lawful.whole_offered {config : Config} {c : Controller} {command : Command}
    (h : Lawful config c.history (.writing command (c.transmit.take c.accepted)))
    (htransmit : c.transmit = config.text command) {bytes : Nat}
    (hwhole : c.accepted + bytes = c.transmit.length) :
    Lawful config (c.history ++ [Mark.accepted (c.offered bytes)]) (.reading command) := by
  refine h.whole ?_
  rw [take_offered, hwhole, List.take_length, htransmit]

/-- The controller knows the next command as the configuration does. -/
theorem PinKept.following {config : Config} {c : Controller} {command : Command}
    (h : PinKept config c command) (hcommand : c.command = some command) :
    c.following = config.following command := by
  unfold Controller.following
  rw [hcommand]
  cases command with
  | «at» => rfl
  | atRetry => rfl
  | reset => rfl
  | echoOff => simp [Config.following, h (by simp) (by simp)]
  | pin => rfl
  | cmux => rfl

/-- Only `AT+CMUX` comes after the PIN. -/
theorem PinKept.next {config : Config} {c : Controller} {command next : Command}
    (h : PinKept config c command) (hnext : config.following command = some next)
    (hcmux : next ≠ .cmux) : c.pin = config.pin := by
  refine h ?_ ?_
  · rintro rfl
    cases hnext
    exact hcmux rfl
  · rintro rfl
    cases hnext

theorem Due.lawful {config : Config} {c : Controller} {mark : Mark} (h : Due c mark)
    (hc : Ordered config c) : ∃ stage, Lawful config (c.history ++ [mark]) stage := by
  cases h with
  | answered hphase =>
      obtain ⟨command, -, -, hlawful⟩ := hc.reading hphase
      by_cases hok : classify c.record = .ok
      · exact ⟨_, hok ▸ hlawful.ok⟩
      by_cases hrejected : classify c.record = .rejected
      · exact ⟨_, hrejected ▸ hlawful.rejected⟩
      · exact ⟨_, hlawful.noted hok hrejected⟩
  | timedOut hphase hat =>
      obtain ⟨command, hcommand, -, hlawful⟩ := hc.reading hphase
      cases hat.symm.trans hcommand
      exact ⟨_, hlawful.retried (.inr rfl)⟩
  | accepted hphase bytes _ hroom =>
      obtain ⟨command, -, htransmit, -, hlawful⟩ := hc.writing hphase
      exact ⟨_, hlawful.part_offered htransmit bytes⟩

theorem Dropped.ordered {config : Config} {c c' : Controller} {error : Error}
    (h : Dropped c error c') (hc : Ordered config c) : Ordered config c' := by
  obtain ⟨hfailed, hsame | ⟨mark, hmark, hnote⟩⟩ := h
  · obtain ⟨stage, hlawful, -⟩ := hc.history
    exact ⟨fun halive => absurd hfailed halive, stage, hsame ▸ hlawful, .failed stage hfailed⟩
  · obtain ⟨stage, hlawful⟩ := hmark.lawful hc
    exact ⟨fun halive => absurd hfailed halive, stage, hnote ▸ hlawful, .failed stage hfailed⟩

/-- A line that is taken keeps the order of the commands. -/
theorem Taken.ordered {config : Config} {now : Nat} {c c' : Controller} (h : Taken now c c')
    (hc : Ordered config c) : Ordered config c' := by
  cases h with
  | begun hphase _ =>
      obtain ⟨hpin, hlawful⟩ := hc.waitingReady hphase
      exact ordered_starting _ _ _ hlawful .first (fun _ => hpin) (hc.settings (by simp [hphase]))
  | ignored _ => exact hc.of_same rfl rfl rfl ⟨rfl, rfl⟩ ⟨rfl, rfl⟩ rfl
  | cmuxReady hphase _ _ =>
      obtain ⟨command, hcommand, hpin, hlawful⟩ := hc.reading hphase
      exact ⟨hc.settings, _, hlawful.noted (by simp) (by simp), .reading command hphase hcommand hpin⟩
  | noted hphase hrejected hok =>
      obtain ⟨command, hcommand, hpin, hlawful⟩ := hc.reading hphase
      exact ⟨hc.settings, _, hlawful.noted hok hrejected, .reading command hphase hcommand hpin⟩
  | retried hphase _ hat =>
      obtain ⟨command, hcommand, hpin, hlawful⟩ := hc.reading hphase
      cases hat.symm.trans hcommand
      exact ordered_starting _ _ _ (hlawful.retried (.inl rfl)) .again
        (fun _ => hpin (by simp) (by simp)) (hc.settings (by simp [hphase]))
  | advanced hphase _ next hnext =>
      obtain ⟨command, hcommand, hpin, hlawful⟩ := hc.reading hphase
      rw [hpin.following hcommand] at hnext
      exact ordered_starting _ _ _ hlawful.ok (.next hnext) (hpin.next hnext)
        (hc.settings (by simp [hphase]))
  | finished hphase _ hcmux =>
      obtain ⟨command, hcommand, hpin, hlawful⟩ := hc.reading hphase
      cases hcmux.symm.trans hcommand
      exact ⟨fun _ => hc.settings (by simp [hphase]), _, hlawful.ok, .finished (.inr rfl)⟩
  | settling hphase _ hcmux =>
      obtain ⟨command, hcommand, hpin, hlawful⟩ := hc.reading hphase
      cases hcmux.symm.trans hcommand
      exact ⟨fun _ => hc.settings (by simp [hphase]), _, hlawful.ok, .finished (.inl rfl)⟩

theorem ordered_closed {config : Config} {c : Controller} (h : Ordered config c) :
    Ordered config c.closed := by
  unfold Controller.closed
  split
  · exact h.of_same rfl rfl rfl ⟨rfl, rfl⟩ ⟨rfl, rfl⟩ rfl
  · exact h

theorem Ticked.ordered {config : Config} {now : Nat} {c c' : Controller} (h : Ticked now c c')
    (hc : Ordered config c) : Ordered config c' := by
  cases h with
  | held _ _ _ => exact hc.of_same rfl rfl rfl ⟨rfl, rfl⟩ ⟨rfl, rfl⟩ rfl
  | taken _ _ _ _ htaken =>
      exact ordered_closed (htaken.ordered (hc.of_same rfl rfl rfl ⟨rfl, rfl⟩ ⟨rfl, rfl⟩ rfl))
  | still _ _ => exact hc.of_same rfl rfl rfl ⟨rfl, rfl⟩ ⟨rfl, rfl⟩ rfl
  | begun _ hphase =>
      obtain ⟨hpin, hlawful⟩ := hc.waitingReady hphase
      exact ordered_starting _ _ _ hlawful .first (fun _ => hpin) (hc.settings (by simp [hphase]))
  | retried _ hphase hat =>
      obtain ⟨command, hcommand, hpin, hlawful⟩ := hc.reading hphase
      cases hat.symm.trans hcommand
      exact ordered_starting _ _ _ (hlawful.retried (.inr rfl)) .again
        (fun _ => hpin (by simp) (by simp)) (hc.settings (by simp [hphase]))
  | settled _ hphase =>
      exact ⟨fun _ => hc.settings (by simp [hphase]), _, hc.finished (.inl hphase), .finished (.inr rfl)⟩
  | ready _ _ => exact hc.of_same rfl rfl rfl ⟨rfl, rfl⟩ ⟨rfl, rfl⟩ rfl

theorem Written.ordered {config : Config} {now bytes : Nat} {c c' : Controller}
    (h : Written now bytes c c') (hc : Ordered config c) : Ordered config c' := by
  cases h with
  | part hphase _ _ _ =>
      obtain ⟨command, hcommand, htransmit, hpin, hlawful⟩ := hc.writing hphase
      exact ⟨hc.settings, _, hlawful.part_offered htransmit bytes,
        .writing command hphase hcommand htransmit hpin⟩
  | whole hphase _ _ hwhole =>
      obtain ⟨command, hcommand, htransmit, hpin, hlawful⟩ := hc.writing hphase
      exact ⟨fun _ => hc.settings (by simp [hphase]), _, hlawful.whole_offered htransmit hwhole,
        .reading command rfl hcommand hpin⟩

/-! ### What each call keeps -/

variable (config : Config)

theorem fail_ordered {α : Type} (error : Error) :
    Keeps (Ordered config) (Ordered config) (fail error : Step α) := by
  intro c hc
  have hdropped : Dropped c error (c.failed error) := ⟨rfl, .inl rfl⟩
  exact ends_fail.mpr (hdropped.ordered hc)

theorem clock_ordered (now : Nat) : Keeps (Ordered config) (Ordered config) (clock now) := by
  intro c hc
  refine (clock_spec now c).mono ?_ fun _ _ h => h.dropped.ordered hc
  rintro _ _ ⟨-, -, rfl⟩
  exact hc.of_same rfl rfl rfl ⟨rfl, rfl⟩ ⟨rfl, rfl⟩ rfl

theorem tick_ordered (now : Nat) : Keeps (Ordered config) (Ordered config) (tick now) :=
  fun c hc => (tick_spec now c).mono (fun _ _ h => h.ordered hc) fun _ _ h => h.ordered hc

theorem completeLine_ordered (now : Nat) :
    Keeps (Ordered config) (Ordered config) (completeLine now) := by
  intro c hc
  refine (completeLine_spec now c).mono ?_ fun _ _ h => h.ordered hc
  rintro _ _ ⟨c₁, htaken, rfl, -⟩
  exact ordered_closed (htaken.ordered hc)

theorem handOff_ordered (input : List UInt8) (offset : Nat) :
    Keeps (Ordered config) (Ordered config) (handOff input offset) := by
  intro c hc
  refine (handOff_spec input offset c).mono ?_ fun _ _ h => h.elim
  rintro _ _ (rfl | rfl)
  · exact hc
  · exact hc.of_same rfl rfl rfl ⟨rfl, rfl⟩ ⟨rfl, rfl⟩ rfl

theorem feedByte_ordered (now : Nat) (byte : UInt8) (next : Option UInt8) :
    Keeps (Ordered config) (Ordered config) (feedByte now byte next) := by
  intro c hc
  refine (feedByte_spec now byte next c).mono ?_ fun _ _ h => h.dropped.ordered hc
  rintro _ _ (rfl | rfl | ⟨-, -, rfl⟩)
  · exact hc
  · exact hc.of_same rfl rfl rfl ⟨rfl, rfl⟩ ⟨rfl, rfl⟩ rfl
  · exact hc.of_same rfl rfl rfl ⟨rfl, rfl⟩ ⟨rfl, rfl⟩ rfl

theorem feedLoop_ordered (now : Nat) (input rest : List UInt8) (index : Nat) :
    Keeps (Ordered config) (Ordered config) (feedLoop now input index rest) := by
  induction rest generalizing index with
  | nil => exact keeps_pure _
  | cons byte rest ih =>
      unfold feedLoop
      refine (feedByte_ordered config now byte _).bind fun complete => keeps_ite (fun _ => ?_)
        fun _ => ih (index + 1)
      exact (completeLine_ordered config now).bind fun finished =>
        keeps_ite (fun _ => handOff_ordered config input _) fun _ => ih (index + 1)

theorem feedBoundary_ordered (now : Nat) (input : List UInt8) :
    Keeps (Ordered config) (Ordered config) (feedBoundary now input) := by
  intro c hc
  unfold feedBoundary
  rw [ends_bind, ends_get]
  split
  · rw [ends_bind, ends_set, ends_ite]
    have hfree : Ordered config { c with tokenUntil := none } :=
      hc.of_same rfl rfl rfl ⟨rfl, rfl⟩ ⟨rfl, rfl⟩ rfl
    split
    · exact completeLine_ordered config now _ hfree
    · exact (ends_pure _).mpr hfree
  · exact (ends_pure _).mpr hc

theorem feed_ordered (now : Nat) (input : List UInt8) :
    Keeps (Ordered config) (Ordered config) (feed now input) := by
  unfold feed
  refine (clock_ordered config now).bind fun _ => (feedBoundary_ordered config now input).bind
    fun whole => keeps_ite (fun _ => handOff_ordered config input 0) fun _ =>
      (tick_ordered config now).bind fun _ => ?_
  intro c hc
  rw [ends_bind, ends_get]
  exact keeps_ite (fun _ => handOff_ordered config input 0)
    (fun _ => keeps_ite (fun _ => fail_ordered config _)
      fun _ => feedLoop_ordered config now input input 0) c hc

/-- Every reachable chat has sent its commands in order. -/
theorem Reachable.ordered {c : Controller} (h : Reachable config c) : Ordered config c := by
  refine h.invariant ?_ ?_
  · intro now nextWrite c hnew
    unfold Controller.new at hnew
    split at hnew
    · cases hnew
    split at hnew
    · cases hnew
    cases hnew
    exact ⟨fun _ => ⟨rfl, rfl⟩, _, .nil, .waitingReady rfl rfl⟩
  · intro c event hc
    cases event with
    | feed now input => exact ((feed_ordered config now input).bind fun _ => keeps_pure _) c hc
    | tick now => exact tick_ordered config now c hc
    | acceptWritten now token bytes =>
        exact (acceptWritten_spec now token bytes c).mono (fun _ _ h => h.ordered hc)
          fun _ _ h => h.ordered hc
    | writeFault now token fault =>
        exact (writeFault_spec now token fault c).mono (fun _ _ h => h.ordered hc)
          fun _ _ h => h.ordered hc
    | readFault now fault =>
        exact (readFault_spec now fault c).mono (fun _ _ h => h.ordered hc)
          fun _ _ h => h.ordered hc
    | cancel => exact fail_ordered config _ c hc
    | tokensTaken count =>
        exact ends_modify.mpr (hc.of_same rfl rfl rfl ⟨rfl, rfl⟩ ⟨rfl, rfl⟩ rfl)

/-! ### The discipline -/

variable {config}

/-- What must have happened before a command: the command before it was written to its end
and answered. -/
def Earned (config : Config) (before : List Mark) : Command → Prop
  | .at => before = []
  | .atRetry => ∃ earlier since last, before = earlier ++ .started .at :: (since ++ [last]) ∧
      startedCommands since = [] ∧ acceptedBytes since = config.text .at ∧
      (last = .answered .rejected ∨ last = .timedOut)
  | command => ∃ previous earlier since, config.following previous = some command ∧
      before = earlier ++ .started previous :: (since ++ [.answered .ok]) ∧
      startedCommands since = [] ∧ acceptedBytes since = config.text previous

/-- A command that is started has been earned. -/
theorem Starts.earned {history : List Mark} {stage : Stage} {command : Command}
    (h : Starts config stage command) (hlawful : Lawful config history stage) :
    Earned config history command := by
  have htold := hlawful.told
  cases h with
  | first => exact htold
  | again =>
      obtain ⟨last, hlast, _, earlier, since, heq, hnone, hwritten, -⟩ := htold
      exact ⟨earlier, since, last, heq, hnone, hwritten, hlast⟩
  | @next previous _ hnext =>
      obtain ⟨_, earlier, since, heq, hnone, hwritten, -⟩ := htold
      have hearned : ∃ previous earlier since, config.following previous = some command ∧
          history = earlier ++ .started previous :: (since ++ [Mark.answered .ok]) ∧
          startedCommands since = [] ∧ acceptedBytes since = config.text previous :=
        ⟨previous, earlier, since, hnext, heq, hnone, hwritten⟩
      cases command with
      | «at» => exact absurd hnext (by cases previous <;> simp [Config.following]; split <;> simp)
      | atRetry => exact absurd hnext (by cases previous <;> simp [Config.following]; split <;> simp)
      | reset => exact hearned
      | echoOff => exact hearned
      | pin => exact hearned
      | cmux => exact hearned

/-- A mark of a history that grew by one. -/
theorem snoc_eq_append_cons {α : Type} {history before after : List α} {last mark : α}
    (h : history ++ [last] = before ++ mark :: after) :
    history = before ∧ last = mark ∨ ∃ after', history = before ++ mark :: after' := by
  rcases List.eq_nil_or_concat after with rfl | ⟨after', x, rfl⟩
  · exact .inl (List.append_inj' h rfl |>.imp id fun h => by simpa using h)
  · refine .inr ⟨after', ?_⟩
    have hsnoc : history ++ [last] = (before ++ mark :: after') ++ [x] := by simpa using h
    exact (List.append_inj' hsnoc rfl).1

/-- **No command is started before the one before it was written and answered.** -/
theorem Lawful.earned {history : List Mark} {stage : Stage} (h : Lawful config history stage)
    {before after : List Mark} {command : Command}
    (heq : history = before ++ .started command :: after) : Earned config before command := by
  induction h generalizing before after command with
  | nil => cases before <;> cases heq
  | started hlawful hstarts ih =>
      rcases snoc_eq_append_cons heq with ⟨rfl, hmark⟩ | ⟨after', hhistory⟩
      · cases hmark
        exact hstarts.earned hlawful
      · exact ih hhistory
  | part _ _ ih | whole _ _ ih =>
      rcases snoc_eq_append_cons heq with ⟨-, hmark⟩ | ⟨after', hhistory⟩
      · cases hmark
      · exact ih hhistory
  | ok _ ih | noted _ _ _ ih | rejected _ ih =>
      rcases snoc_eq_append_cons heq with ⟨-, hmark⟩ | ⟨after', hhistory⟩
      · cases hmark
      · exact ih hhistory
  | retried _ hmark' ih =>
      rcases snoc_eq_append_cons heq with ⟨-, hmark⟩ | ⟨after', hhistory⟩
      · rcases hmark' with rfl | rfl <;> cases hmark
      · exact ih hhistory

/-- How far the commands and their bytes have come. -/
theorem Since.progress {history last : List Mark} {command : Command} {written : List UInt8}
    (h : Since config history command written last)
    (hlast : startedCommands last = [] ∧ acceptedBytes last = []) :
    ∃ retry, startedCommands history = config.before retry command ++ [command] ∧
      acceptedBytes history = (config.before retry command).flatMap config.text ++ written ∧
      startedCommands history <+: config.plan retry := by
  obtain ⟨retry, earlier, since, rfl, hnone, rfl, hstarted, haccepted, hplan⟩ := h
  have hcommands : startedCommands (earlier ++ .started command :: (since ++ last)) =
      config.before retry command ++ [command] := by
    rw [startedCommands_append, hstarted]
    show _ ++ startedCommands ([Mark.started command] ++ (since ++ last)) = _
    rw [startedCommands_append, startedCommands_append, hnone, hlast.1]
    rfl
  refine ⟨retry, hcommands, ?_, hcommands ▸ hplan⟩
  rw [acceptedBytes_append, haccepted]
  show _ ++ acceptedBytes ([Mark.started command] ++ (since ++ last)) = _
  rw [acceptedBytes_append, acceptedBytes_append, hlast.2]
  simp [acceptedBytes]

/-- A lawful history is a beginning of the plan. -/
theorem Lawful.progress {history : List Mark} {stage : Stage} (h : Lawful config history stage) :
    ∃ retry, startedCommands history <+: config.plan retry ∧
      acceptedBytes history <+: (startedCommands history).flatMap config.text := by
  have hsince : ∀ command written last, Since config history command written last →
      startedCommands last = [] ∧ acceptedBytes last = [] → written <+: config.text command →
      ∃ retry, startedCommands history <+: config.plan retry ∧
        acceptedBytes history <+: (startedCommands history).flatMap config.text := by
    intro command written last hsince hlast hwritten
    obtain ⟨retry, hcommands, hbytes, hplan⟩ := hsince.progress hlast
    refine ⟨retry, hplan, ?_⟩
    rw [hbytes, hcommands, List.flatMap_append]
    refine List.prefix_append_right_inj _ |>.mpr ?_
    simpa using hwritten
  have htold := h.told
  cases stage with
  | idle =>
      cases htold
      exact ⟨false, List.nil_prefix, List.nil_prefix⟩
  | writing command written => exact hsince _ _ _ htold.1 ⟨rfl, rfl⟩ htold.2
  | reading command => exact hsince _ _ _ htold ⟨rfl, rfl⟩ (List.prefix_refl _)
  | passed command => exact hsince _ _ _ htold ⟨rfl, rfl⟩ (List.prefix_refl _)
  | again =>
      obtain ⟨mark, rfl | rfl, htold⟩ := htold
      · exact hsince _ _ _ htold ⟨rfl, rfl⟩ (List.prefix_refl _)
      · exact hsince _ _ _ htold ⟨rfl, rfl⟩ (List.prefix_refl _)
  | rejected command => exact hsince _ _ _ htold ⟨rfl, rfl⟩ (List.prefix_refl _)

/-- The bytes that are offered end the commands that were started. -/
theorem Ordered.offers {c : Controller} (h : Ordered config c) {request : WriteRequest}
    (hrequest : c.pendingWrite = some request) :
    acceptedBytes c.history ++ request.bytes =
      (startedCommands c.history).flatMap config.text := by
  unfold Controller.pendingWrite at hrequest
  split at hrequest
  · rename_i hphase
    obtain ⟨token, -, rfl⟩ := Option.map_eq_some_iff.mp hrequest
    obtain ⟨command, -, htransmit, -, hlawful⟩ := h.writing hphase
    obtain ⟨retry, hcommands, hbytes, -⟩ := hlawful.told.1.progress ⟨rfl, rfl⟩
    rw [hbytes, hcommands, List.append_assoc, List.take_append_drop, htransmit]
    simp
  · cases hrequest

/-- **The commands come in order, each written once and answered before the next.** The
accepted bytes are one of the command streams as far as it has come, the bytes offered are
the rest of the command that was started last, each command was earned, and the dialogue is
over only after `OK` to all of `AT+CMUX`. -/
theorem command_discipline {c : Controller} (hreach : Reachable config c) :
    (∃ retry, startedCommands c.history <+: config.plan retry ∧
      acceptedBytes c.history <+: (config.plan retry).flatMap config.text) ∧
    (∀ request, c.pendingWrite = some request →
      acceptedBytes c.history ++ request.bytes =
        (startedCommands c.history).flatMap config.text) ∧
    (∀ before command after, c.history = before ++ .started command :: after →
      Earned config before command) ∧
    (c.phase = .settling ∨ c.phase = .ready →
      ∃ earlier since, c.history = earlier ++ .started .cmux :: (since ++ [.answered .ok]) ∧
        startedCommands since = [] ∧ acceptedBytes since = config.text .cmux) := by
  have hordered := hreach.ordered
  obtain ⟨stage, hlawful, -⟩ := hordered.history
  refine ⟨?_, fun request => hordered.offers, fun before command after => hlawful.earned, ?_⟩
  · obtain ⟨retry, ⟨rest, hplan⟩, hbytes⟩ := hlawful.progress
    refine ⟨retry, ⟨rest, hplan⟩, hbytes.trans ?_⟩
    rw [← hplan, List.flatMap_append]
    exact List.prefix_append ..
  · intro hover
    obtain ⟨_, earlier, since, heq, hnone, hwritten, -⟩ := (hordered.finished hover).told
    exact ⟨earlier, since, heq, hnone, hwritten⟩

/-- A dialogue with a PIN. -/
def pinConfig : Config :=
  { frameLimit := 128
    baudIndex := 5
    userBuild := false
    pin := some ⟨ascii ['1', '2', '3', '4']⟩ }

/-- The first `AT` is not answered; then all goes well until the PIN is half written. -/
def pinScript : List Event :=
  let ok := okText ++ [0x0d]
  [.tick 20000, .acceptWritten 20000 1 2, .acceptWritten 20001 1 1, .tick 25000,
    .acceptWritten 25000 2 3, .feed 25000 ok, .acceptWritten 25000 3 4, .feed 25000 ok,
    .acceptWritten 25000 4 5, .feed 25000 ok, .acceptWritten 25000 5 8]

theorem command_discipline_scripted :
    ∃ c, Reachable pinConfig c ∧
      startedCommands c.history = [.at, .atRetry, .reset, .echoOff, .pin] ∧
      acceptedBytes c.history <+: (pinConfig.plan true).flatMap pinConfig.text := by
  obtain ⟨c, hreach, hstarted⟩ := Reachable.of_script pinConfig pinScript
    (fun c => startedCommands c.history = [.at, .atRetry, .reset, .echoOff, .pin])
    (by decide +kernel)
  obtain ⟨retry, hplan, hbytes⟩ := (command_discipline hreach).1
  refine ⟨_, hreach, hstarted, ?_⟩
  cases retry with
  | true => exact hbytes
  | false =>
      rw [hstarted] at hplan
      exact absurd hplan (by decide)

end Mindone.Mux.Chat
