import Mindone.Radio.At.Engine

/-!
# Mindone.Radio.At.Channels

The engines of a radio by their channel (`modem/radio/at/channels.rs`). They share the counter of
write tokens: an engine gets it for the time of a call.
-/

namespace Mindone.Radio.At

structure Channels where
  engines : List (Nat × Engine)
  /-- `NEXT_WRITE` -/
  nextWrite : Nat

namespace Channels

def new (now : Nat) (ids : List Nat) (prefixes : List (List UInt8)) (nextWrite : Nat) :
    Except Error Channels :=
  if ids = [] ∨ ¬ ids.Nodup then .error .configuration
  else
    match Engine.new now prefixes nextWrite with
    | .error error => .error error
    | .ok engine => .ok ⟨ids.map fun id => (id, engine), nextWrite⟩

/-- `get`, with the counter. -/
def get (c : Channels) (channel : Nat) : Option Engine :=
  (c.engines.find? fun entry => entry.1 = channel).map fun entry =>
    { entry.2 with nextWrite := c.nextWrite }

/-- The engine behind a call of `get_mut`. -/
def put (c : Channels) (channel : Nat) (e : Engine) : Channels where
  engines := c.engines.map fun entry => if entry.1 = channel then (channel, e) else entry
  nextWrite := e.nextWrite

/-- `get_mut(channel).ok_or(Configuration)?.enqueue(command)` -/
def enqueue (c : Channels) (channel : Nat) (command : Command) : Except Error Nat × Channels :=
  match c.get channel with
  | none => (.error .configuration, c)
  | some e =>
      match At.enqueue command e with
      | .ok id e' => (.ok id, c.put channel e')
      | .error error e' => (.error error, c.put channel e')

/-- A command is made and enqueued. -/
def request (c : Channels) (channel : Nat) (text : List UInt8) (expectedPrefix : Option (List UInt8))
    (maxLines deadline : Nat) : Except Error Nat × Channels :=
  match Command.new text expectedPrefix maxLines deadline with
  | .error error => (.error error, c)
  | .ok command => c.enqueue channel command

end Channels

/-! ### The events of a call -/

/-- The command that was active when a line was completed (not in the source). -/
structure Heard where
  channel : Nat
  active : Option Nat
  deriving DecidableEq

/-- What is active when the engine looks at the line that a byte may end. -/
def Engine.listening (e : Engine) (now : Nat) (byte : UInt8) : Option Nat :=
  ((e.note (.fed now)).count now byte).active.map fun pending => pending.id

/-- What a call emitted. -/
def newEvents (e e' : Engine) : List Event := e'.emitted.drop e.emitted.length

/-- What bytes make the engine emit, each event with the command that was active. -/
def heardEvents (channel now : Nat) : Engine → List UInt8 → List (Event × Heard)
  | _, [] => []
  | e, byte :: rest =>
      let e' := Engine.absorb now e byte
      (newEvents e e').map (·, ⟨channel, e.listening now byte⟩) ++ heardEvents channel now e' rest

/-- What `feed` emits. -/
def feedEvents (channel now : Nat) (e : Engine) (input : List UInt8) : List (Event × Heard) :=
  let settled := (clock now *> expire now : Step Unit) e
  match settled with
  | .ok _ e' =>
      (newEvents e e').map (·, ⟨channel, none⟩) ++ heardEvents channel now e' input
  | .error _ e' => (newEvents e e').map (·, ⟨channel, none⟩)

end Mindone.Radio.At
