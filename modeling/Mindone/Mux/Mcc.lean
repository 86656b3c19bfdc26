import Mindone.Mux.Frame

/-!
# Mindone.Mux.Mcc

The control messages of channel 0 (`modem/mux/mcc.rs`). `prepare` reads one message,
checks its body and prepares the reply, which never is a command itself.
-/

namespace Mindone.Mux.Mcc

open Mindone.Lib

def maxNscTypeBytes : Nat := 8
def maxLengthBytes : Nat := 3
def command : UInt8 := 2
def test : UInt8 := 0x21
def psc : UInt8 := 0x41
def pn : UInt8 := 0x81
def cld : UInt8 := 0xc1
def msc : UInt8 := 0xe1
def nsc : UInt8 := 0x11

inductive Error
  | configuration
  | oversizedInput
  | missingTypeTerminator
  | missingLengthTerminator
  | lengthEncoding
  | lengthMismatch
  | trailingBytes
  | invalidBody
  | insufficientCapacity
  | oversizedReply
  deriving DecidableEq

inductive Effect
  | none
  | peerClosing
  | peerSignals (channel signals : UInt8)
  deriving DecidableEq

structure Reply where
  control : UInt8
  payload : List UInt8
  deriving DecidableEq

structure Outcome where
  effect : Effect
  reply : Option Reply
  deriving DecidableEq

/-- The loop of `declared_length`, over the length bytes still allowed. -/
def lengthLoop (input : List UInt8) (start : Nat) : List Nat → Nat → Except Error (Nat × Nat)
  | [], _ => .error .lengthEncoding
  | index :: rest, value =>
      match input[start + index]? with
      | none => .error .missingLengthTerminator
      | some byte =>
          let value := value ||| (byte >>> 1).toNat <<< (index * 7)
          if byte &&& 1 ≠ 0 then .ok (value, start + index + 1)
          else lengthLoop input start rest value

/-- The declared length and the index behind it. -/
def declaredLength (input : List UInt8) (start : Nat) : Except Error (Nat × Nat) :=
  lengthLoop input start (List.range maxLengthBytes) 0

def validMsc : List UInt8 → Bool
  | [channel, signals] => channel &&& 3 == 3 && signals &&& 1 == 1
  | [channel, signals, breakSignal] =>
      channel &&& 3 == 3 && signals &&& 1 == 0 && breakSignal &&& 1 == 1
  | _ => false

/-- What a command with this body asks for. -/
def effectOf (kind : UInt8) (value : List UInt8) : Except Error Effect :=
  if (kind = psc ∨ kind = cld) ∧ value ≠ [] then .error .invalidBody
  else if kind = pn ∧ value.length ≠ 8 then .error .invalidBody
  else if kind = msc ∧ validMsc value = false then .error .invalidBody
  else if kind = cld then .ok .peerClosing
  else if kind = msc then .ok (.peerSignals (value.getD 0 0 >>> 2) (value.getD 1 0))
  else .ok .none

/-- Whether the reply is the message itself with its command bit cleared. -/
def echoes (kind : UInt8) : Bool :=
  kind == test || kind == psc || kind == pn || kind == cld || kind == msc

/-- The reply, written to the front of `output`. -/
def prepareReply (input : List UInt8) (kind : UInt8) (typeBytes frameLimit : Nat)
    (output : List UInt8) : Except Error Reply :=
  let responseTypeBytes := min typeBytes maxNscTypeBytes
  let length := if echoes kind then input.length else 2 + responseTypeBytes
  if length > frameLimit ∨ length > maxPayload then .error .oversizedReply
  else if shorterThan output length then .error .insufficientCapacity
  else
    let output :=
      if echoes kind then
        let output := blit output 0 input
        output.set 0 (output.getD 0 0 &&& ~~~command)
      else
        let output := output.set 0 nsc
        let output := output.set 1 (UInt8.ofNat responseTypeBytes <<< 1 ||| 1)
        blit output 2 (input.take responseTypeBytes)
    .ok { control := uih, payload := output.take length }

def prepare (input : List UInt8) (frameLimit : Nat) (output : List UInt8) :
    Except Error Outcome := do
  if ¬ ValidLimit frameLimit then throw .configuration
  if input.length > frameLimit then throw .oversizedInput
  let typeBytes ←
    match input.findIdx? fun byte => byte &&& 1 != 0 with
    | none => throw .missingTypeTerminator
    | some position => pure (position + 1)
  let (declared, valueStart) ← declaredLength input typeBytes
  let actual := input.length - valueStart
  if declared > actual then throw .lengthMismatch
  if declared < actual then throw .trailingBytes
  let first := input.getD 0 0
  if first &&& command = 0 then
    return { effect := .none, reply := none }
  let kind := first &&& ~~~command
  let effect ← effectOf kind (input.drop valueStart)
  let reply ← prepareReply input kind typeBytes frameLimit output
  return { effect, reply := some reply }

/-! ### Replies -/

/-- Not a command: the command bit of the first byte is clear. -/
def Reply.Answers (reply : Reply) : Prop :=
  reply.control = uih ∧ ∀ b, reply.payload.head? = some b → b &&& command = 0

/-- **A reply is never a command**, so it cannot be taken for a message of this side. -/
theorem prepareReply_answers {input output : List UInt8} {kind : UInt8}
    {typeBytes frameLimit : Nat} {reply : Reply}
    (h : prepareReply input kind typeBytes frameLimit output = .ok reply) : reply.Answers := by
  have hclear : ∀ b : UInt8, b &&& ~~~command &&& command = 0 := by decide +kernel
  have hhead : ∀ (l : List UInt8) (x b : UInt8) (n : Nat),
      ((l.set 0 x).take n).head? = some b → b = x := by
    intro l x b n hb
    cases l with
    | nil => simp at hb
    | cons y rest =>
        cases n with
        | zero => simp at hb
        | succ n => simpa using hb.symm
  unfold prepareReply at h
  cases hecho : echoes kind with
  | true =>
      simp only [hecho, if_true] at h
      split_ifs at h
      cases h
      refine ⟨rfl, fun b hb => ?_⟩
      rw [hhead _ _ _ _ hb]
      exact hclear _
  | false =>
      simp only [hecho, Bool.false_eq_true, if_false] at h
      split_ifs at h with hsize hshort
      cases h
      refine ⟨rfl, fun b hb => ?_⟩
      rw [shorterThan_iff] at hshort
      match output with
      | [] => simp at hshort
      | [_] =>
          rw [List.length_singleton] at hshort
          omega
      | _ :: _ :: rest =>
          -- the copied type bytes stand behind the two bytes written first
          rw [Nat.add_comm] at hb
          obtain rfl : nsc = b := by simpa [blit] using hb
          decide

/-- What a prepared message with a reply went through. -/
theorem prepare_answers {input output : List UInt8} {frameLimit : Nat} {outcome : Outcome}
    (h : prepare input frameLimit output = .ok outcome) {reply : Reply}
    (hreply : outcome.reply = some reply) : reply.Answers := by
  simp only [prepare, bind, Except.bind, pure, Except.pure, throw, throwThe,
    MonadExceptOf.throw] at h
  split_ifs at h
  · split at h
    · cases h
    · split at h
      · cases h
      · split_ifs at h
        cases h
        cases hreply
  · split at h
    · cases h
    · split at h
      · cases h
      · split_ifs at h
        split at h
        · cases h
        · split at h
          · cases h
          · rename_i hprepared
            cases h
            cases hreply
            exact prepareReply_answers hprepared

end Mindone.Mux.Mcc
