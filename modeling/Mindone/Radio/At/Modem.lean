import Mindone.Radio.At.EngineLedger

/-!
# Mindone.Radio.At.Modem

**The engine and the modem at the other end of its channel.** The modem takes the bytes that
the link accepts, in order. Each carriage return completes a question; the modem answers the
questions one after the other, with any lines and then one final line, as late as it likes,
and sends unsolicited lines in between. Whole lines are put on the wire; the engine gets
them in pieces of any size.

`finals` is what the modem answered to each command, and `begun` the part of the first line
on the wire that has been delivered: the modem itself needs neither.
-/

namespace Mindone.Radio.At

open Mindone.Lib Engine

/-- A command of the client, or the engine itself with its probe. -/
inductive Asker
  | command (id : Nat)
  | probe
  deriving DecidableEq

/-- A question that the modem has received and not yet answered. -/
structure Question where
  asker : Asker
  text : List UInt8
  extraFinals : List (List UInt8)
  deriving DecidableEq

/-- The line ends the answer to the question. -/
def Question.ends (question : Question) (line : List UInt8) : Bool :=
  standardFinal line || question.extraFinals.contains line

def Command.ends (command : Command) (line : List UInt8) : Bool :=
  standardFinal line || command.extraFinals.contains line

/-- A line on the wire, and the question it belongs to if there is one. -/
structure Sent where
  asker : Option Asker
  text : List UInt8
  deriving DecidableEq

/-- One byte on the wire: of a line, at the end of a line, or an empty line. -/
inductive Cell
  | text (byte : UInt8)
  | stop (byte : UInt8) (line : Sent)
  | blank (byte : UInt8)
  deriving DecidableEq

def Cell.byte : Cell → UInt8
  | .text byte => byte
  | .stop byte _ => byte
  | .blank byte => byte

/-- The end of a line that belongs to a question. -/
def Cell.solicited : Cell → Bool
  | .stop _ line => line.asker.isSome
  | _ => false

/-- What has been delivered of the first line, one byte later. -/
def Cell.grow (begun : List UInt8) : Cell → List UInt8
  | .text byte => begun ++ [byte]
  | _ => []

structure Modem where
  received : List UInt8
  owed : List Question
  wire : List Cell
  begun : List UInt8
  finals : List (Nat × List UInt8)

namespace Modem

def new : Modem := ⟨[], [], [], [], []⟩

/-- A byte of a question. -/
def take (asker : Asker) (extraFinals : List (List UInt8)) (m : Modem) (byte : UInt8) : Modem :=
  if byte = 0x0d then
    { m with received := [], owed := m.owed ++ [⟨asker, m.received, extraFinals⟩] }
  else { m with received := m.received ++ [byte] }

def receive (m : Modem) (asker : Asker) (extraFinals : List (List UInt8)) (bytes : List UInt8) :
    Modem :=
  bytes.foldl (take asker extraFinals) m

def send (m : Modem) (line : Sent) (ending : UInt8) : Modem :=
  { m with wire := m.wire ++ line.text.map .text ++ [.stop ending line] }

/-- The first bytes of the wire are delivered. -/
def delivered (m : Modem) (count : Nat) : Modem :=
  { m with
    wire := m.wire.drop count
    begun := (m.wire.take count).foldl Cell.grow m.begun }

end Modem

structure System where
  engine : Engine
  modem : Modem

/-- What can happen. -/
inductive Act
  | enqueue (command : Command)
  | tick (now : Nat)
  /-- Another engine of the process took write tokens. -/
  | tokensTaken (count : Nat)
  /-- The link accepts bytes of what is offered. -/
  | write (now count : Nat)
  | deliver (now count : Nat)
  /-- The modem sends a line of an answer that goes on. -/
  | intermediate (ending : UInt8) (text : List UInt8)
  | final (ending : UInt8) (text : List UInt8)
  | unsolicited (ending : UInt8) (text : List UInt8)
  | blank (ending : UInt8)

def isEnd (byte : UInt8) : Bool := byte = 0x0d || byte = 0x0a

/-- A text that is sent as one line. -/
def isLine (ending : UInt8) (text : List UInt8) : Bool :=
  isEnd ending && text ≠ [] && text.all isPrintable

/-- A line that is no answer to any command of the client, and no part of one. -/
def isStray (known : List Command) (line : List UInt8) : Bool :=
  !standardFinal line && known.all fun command =>
    !command.extraFinals.contains line &&
      !(command.expectedPrefix.any fun start => start.isPrefixOf line)

/-- When the modem and the link may act so. -/
def Allowed (known : List Command) (s : System) : Act → Prop
  | .enqueue command => command ∈ known
  | .write _ count =>
      0 < count ∧ ∃ request ∈ s.engine.pendingWrite, count ≤ request.bytes.length
  | .intermediate ending text =>
      isLine ending text ∧ ∃ question ∈ s.modem.owed.head?, question.ends text = false
  | .final ending text =>
      isLine ending text ∧ ∃ question ∈ s.modem.owed.head?, question.ends text = true
  | .unsolicited ending text => isLine ending text ∧ isStray known text
  | .blank ending => isEnd ending
  | _ => True

/-- Who writes. -/
def Engine.asker (e : Engine) : Asker :=
  match e.active with
  | some pending => .command pending.id
  | none => .probe

def Engine.askerFinals (e : Engine) : List (List UInt8) :=
  match e.active with
  | some pending => pending.command.extraFinals
  | none => []

def System.after (s : System) : Act → System
  | .enqueue command => { s with engine := s.engine.after (.enqueue command) }
  | .tick now => { s with engine := s.engine.after (.tick now) }
  | .tokensTaken count => { s with engine := s.engine.after (.tokensTaken count) }
  | .write now count =>
      match s.engine.pendingWrite with
      | some request =>
          { engine := s.engine.after (.acceptWritten now request.token count)
            modem := s.modem.receive s.engine.asker s.engine.askerFinals
              (request.bytes.take count) }
      | none => s
  | .deliver now count =>
      { engine := s.engine.after (.feed now ((s.modem.wire.take count).map Cell.byte))
        modem := s.modem.delivered count }
  | .intermediate ending text =>
      match s.modem.owed with
      | question :: _ => { s with modem := s.modem.send ⟨some question.asker, text⟩ ending }
      | [] => s
  | .final ending text =>
      match s.modem.owed with
      | question :: owed =>
          let m := { s.modem with owed }.send ⟨some question.asker, text⟩ ending
          match question.asker with
          | .command id => { s with modem := { m with finals := m.finals ++ [(id, text)] } }
          | .probe => { s with modem := m }
      | [] => s
  | .unsolicited ending text => { s with modem := s.modem.send ⟨none, text⟩ ending }
  | .blank ending => { s with modem := { s.modem with wire := s.modem.wire ++ [.blank ending] } }

/-! ### Runs -/

/-- The byte ends the line `OK` that resynchronises the engine. -/
def Engine.resyncs (e : Engine) (byte : UInt8) : Bool :=
  e.phase = .quarantine .reading && e.resyncIntermediate && !e.framer.dropping &&
    e.framer.bytes = okText && isEnd byte

/-- No line on the wire belongs to a question. -/
def Quiet (wire : List Cell) : Prop := ∀ cell ∈ wire, cell.solicited = false

/-- When the engine is resynchronised by one of the cells, nothing is owed and no other
answer is on its way. -/
def SettledPiece (owed : List Question) (rest : List Cell) (now : Nat) :
    Engine → List Cell → Prop
  | _, [] => True
  | e, cell :: more =>
      (e.resyncs cell.byte = true → owed = [] ∧ Quiet (more ++ rest)) ∧
        SettledPiece owed rest now (absorb now e cell.byte) more

/-- The engine is resynchronised only when every question has been answered and the answers
have been delivered. -/
def Settled (s : System) : Act → Prop
  | .deliver now count =>
      IfOk (fun e => SettledPiece s.modem.owed (s.modem.wire.drop count) now e
        (s.modem.wire.take count)) (settle now s.engine)
  | _ => True

/-- **The systems that can be reached** with commands out of `known` and acts that are
`ok`. -/
inductive Reach (known : List Command) (ok : System → Act → Prop) : System → Prop
  | new {now nextWrite : Nat} {prefixes : List (List UInt8)} {e : Engine}
      (h : Engine.new now prefixes nextWrite = .ok e) : Reach known ok ⟨e, .new⟩
  | act {s : System} (h : Reach known ok s) (act : Act) (hallowed : Allowed known s act)
      (hok : ok s act) : Reach known ok (s.after act)

instance (known : List Command) (s : System) (act : Act) : Decidable (Allowed known s act) :=
  match act with
  | .enqueue command => inferInstanceAs (Decidable (command ∈ known))
  | .tick _ => isTrue trivial
  | .tokensTaken _ => isTrue trivial
  | .write _ count =>
      inferInstanceAs (Decidable
        (0 < count ∧ ∃ request ∈ s.engine.pendingWrite, count ≤ request.bytes.length))
  | .deliver _ _ => isTrue trivial
  | .intermediate ending text =>
      inferInstanceAs (Decidable
        (isLine ending text ∧ ∃ question ∈ s.modem.owed.head?, question.ends text = false))
  | .final ending text =>
      inferInstanceAs (Decidable
        (isLine ending text ∧ ∃ question ∈ s.modem.owed.head?, question.ends text = true))
  | .unsolicited ending text =>
      inferInstanceAs (Decidable (isLine ending text ∧ isStray known text))
  | .blank ending => inferInstanceAs (Decidable (isEnd ending))

instance (wire : List Cell) : Decidable (Quiet wire) :=
  inferInstanceAs (Decidable (∀ cell ∈ wire, cell.solicited = false))

instance SettledPiece.decide (owed : List Question) (rest : List Cell) (now : Nat) :
    (piece : List Cell) → (e : Engine) → Decidable (SettledPiece owed rest now e piece)
  | [], _ => isTrue trivial
  | _ :: piece, _ => @instDecidableAnd _ _ _ (SettledPiece.decide owed rest now piece _)

instance (s : System) (act : Act) : Decidable (Settled s act) :=
  match act with
  | .deliver now count =>
      inferInstanceAs (Decidable (IfOk (fun e => SettledPiece s.modem.owed
        (s.modem.wire.drop count) now e (s.modem.wire.take count)) (settle now s.engine)))
  | .enqueue _ => isTrue trivial
  | .tick _ => isTrue trivial
  | .tokensTaken _ => isTrue trivial
  | .write _ _ => isTrue trivial
  | .intermediate _ _ => isTrue trivial
  | .final _ _ => isTrue trivial
  | .unsolicited _ _ => isTrue trivial
  | .blank _ => isTrue trivial

/-- Every act of a script is allowed and `ok`. -/
def Permitted (known : List Command) (ok : System → Act → Prop) : List Act → System → Prop
  | [], _ => True
  | act :: acts, s => (Allowed known s act ∧ ok s act) ∧ Permitted known ok acts (s.after act)

instance Permitted.decide (known : List Command) (ok : System → Act → Prop)
    [∀ s act, Decidable (ok s act)] :
    (acts : List Act) → (s : System) → Decidable (Permitted known ok acts s)
  | [], _ => isTrue trivial
  | _ :: acts, _ => @instDecidableAnd _ _ _ (Permitted.decide known ok acts _)

theorem Reach.play {known : List Command} {ok : System → Act → Prop} {s : System}
    (h : Reach known ok s) (acts : List Act) (hpermitted : Permitted known ok acts s) :
    Reach known ok (acts.foldl System.after s) := by
  induction acts generalizing s with
  | nil => exact h
  | cons act acts ih =>
      exact ih (h.act act hpermitted.1.1 hpermitted.1.2) hpermitted.2

/-- Where a script leads can be computed. -/
theorem Reach.of_script (known : List Command) (ok : System → Act → Prop)
    [∀ s act, Decidable (ok s act)] (acts : List Act) (P : System → Prop) [DecidablePred P]
    (h : (Engine.new 0 [] 0).toOption.any (fun e => decide (Permitted known ok acts ⟨e, .new⟩ ∧
      P (acts.foldl System.after ⟨e, .new⟩))) = true) : ∃ s, Reach known ok s ∧ P s := by
  obtain ⟨e, hnew, hP⟩ := (Option.any_eq_true _ _).mp h
  obtain ⟨hpermitted, hP⟩ := of_decide_eq_true hP
  refine ⟨_, ?_, hP⟩
  cases hstart : Engine.new 0 [] 0 with
  | error error =>
      rw [hstart] at hnew
      cases hnew
  | ok e' =>
      rw [hstart] at hnew
      cases hnew
      exact Reach.play (.new hstart) acts hpermitted

/-- The commands that were answered, with the line that ended the answer. -/
def answered (events : List Event) : List (Nat × List UInt8) :=
  events.filterMap fun event =>
    match event with
    | .completed ⟨id, _, .ok line, _⟩ => some (id, line)
    | _ => none

end Mindone.Radio.At
