import Mindone.Lib.Ring

/-!
# Mindone.Wfca.Relay

The **relay of call media** (`wfca/wfca.c`): records of the uplink and the downlink wait in two rings
until the data thread takes them. The thread is started when the gate opens, `started` and `incall`
both set, and asked to stop when it closes; it notices the request at its next look at
`data_thread_stop_req`. A step is what a thread does between two operations on a lock.
-/

namespace Mindone.Wfca

open Lib

abbrev Bytes := List UInt8

/-! ### Records -/

def relayUlCap : Nat := 10
def relayDlCap : Nat := 50
def relayMaxPayload : Nat := 640

/-- `relay_record_t` as `relay_queue_push` fills it. -/
def record (dirUplink : UInt8) (payload : Bytes) : Bytes :=
  let len := if payload.length > relayMaxPayload then relayMaxPayload else payload.length
  ([0, dirUplink <<< 7, UInt8.ofNat (len % 256), UInt8.ofNat (len / 256 % 256)] : Bytes) ++
    payload.take len ++ List.replicate (relayMaxPayload - len) 0

/-- `relay_queue_t` -/
abbrev Queue := Ring Bytes relayDlCap

def Queue.empty (cap : Nat) (hpos : 0 < cap) (hle : cap ≤ relayDlCap) : Queue :=
  ⟨Vector.replicate relayDlCap [], cap, 0, 0, hle, hpos, Nat.zero_le _⟩

def relayQueuePush (queue : Queue) (dirUplink : UInt8) (payload : Bytes) : Queue :=
  if h : queue.count < queue.cap then queue.push (record dirUplink payload) h else queue

def relayQueuePop (queue : Queue) : Option (Bytes × Queue) := queue.pop

/-! ### The state -/

/-- Where a data thread is. -/
inductive Place
  /-- At the top of the outer loop. -/
  | top
  /-- It makes and connects its socket. -/
  | connecting
  | popUplink
  | popDownlink
  /-- It looks at the stop request. -/
  | check
  /-- It has seen the request, and closes its socket. -/
  | closing
  deriving DecidableEq

/-- A push, with whether its queue was full. -/
structure Pushed where
  payload : Bytes
  full : Bool
  deriving DecidableEq

/-- A queue with its history: what was pushed, and what was popped and written. -/
structure Lane where
  queue : Queue
  pushed : List Pushed
  popped : List Bytes

def Lane.push (lane : Lane) (dirUplink : UInt8) (payload : Bytes) : Lane where
  queue := relayQueuePush lane.queue dirUplink payload
  pushed := lane.pushed ++ [⟨payload, lane.queue.count ≥ lane.queue.cap⟩]
  popped := lane.popped

def Lane.pop (lane : Lane) : Lane :=
  match relayQueuePop lane.queue with
  | none => lane
  | some (out, queue) => { lane with queue := queue, popped := lane.popped ++ [out] }

/-- `mdm_ctrl_ctx_t`, the queues and the data threads there are. -/
structure Relay where
  started : Bool
  incall : Bool
  dataThreadRunning : Bool
  dataThreadStopReq : Bool
  threads : List Place
  ul : Lane
  dl : Lane

def Relay.init : Relay where
  started := false
  incall := false
  dataThreadRunning := false
  dataThreadStopReq := false
  threads := []
  ul := ⟨Queue.empty relayUlCap (by decide) (by decide), [], []⟩
  dl := ⟨Queue.empty relayDlCap (by decide) (by decide), [], []⟩

/-! ### Control commands -/

/-- `mdm_apply_gate_locked`, with whether a thread can be created. -/
def mdmApplyGateLocked (relay : Relay) (created : Bool) : Relay :=
  if relay.started && relay.incall then
    if relay.dataThreadRunning then relay
    else
      let relay := { relay with dataThreadStopReq := false }
      if created then
        { relay with threads := relay.threads ++ [.top], dataThreadRunning := true }
      else relay
  else if relay.dataThreadRunning then { relay with dataThreadStopReq := true }
  else relay

/-- The switch of `handle_mdm_ctrl_cmd`. -/
def setGate (relay : Relay) (cmd : UInt8) : Relay :=
  match cmd with
  | 0 => { relay with started := true }
  | 1 => { relay with started := false }
  | 7 => { relay with incall := true }
  | 8 => { relay with incall := false }
  | _ => relay

def handleMdmCtrlCmd (relay : Relay) (cmd : UInt8) (created : Bool) : Relay :=
  mdmApplyGateLocked (setGate relay cmd) created

/-! ### The data thread -/

/-- One step of `mdm_data_thread` from a place, with whether its socket connects: where it is then,
or nothing when it has ended. -/
def threadStep (relay : Relay) (connected : Bool) : Place → Relay × Option Place
  | .top =>
      if relay.dataThreadStopReq then
        ({ relay with dataThreadRunning := false, dataThreadStopReq := false }, none)
      else (relay, some .connecting)
  | .connecting => (relay, some (if connected then .popUplink else .top))
  | .popUplink => ({ relay with ul := relay.ul.pop }, some .popDownlink)
  | .popDownlink => ({ relay with dl := relay.dl.pop }, some .check)
  | .check => (relay, some (if relay.dataThreadStopReq then .closing else .popUplink))
  | .closing => ({ relay with dataThreadRunning := false, dataThreadStopReq := false }, none)

/-! ### Steps -/

inductive Event
  | command (cmd : UInt8) (created : Bool)
  | pushUplink (payload : Bytes)
  | pushDownlink (payload : Bytes)
  /-- A step of one of the data threads. -/
  | thread (i : Nat) (connected : Bool)

def Relay.step (relay : Relay) : Event → Option Relay
  | .command cmd created => some (handleMdmCtrlCmd relay cmd created)
  | .pushUplink payload => some { relay with ul := relay.ul.push 1 payload }
  | .pushDownlink payload => some { relay with dl := relay.dl.push 0 payload }
  | .thread i connected =>
      match relay.threads[i]? with
      | none => none
      | some place =>
          match threadStep relay connected place with
          | (relay, some place) => some { relay with threads := relay.threads.set i place }
          | (relay, none) => some { relay with threads := relay.threads.eraseIdx i }

def Relay.run (relay : Relay) (events : List Event) : Option Relay := events.foldlM Relay.step relay

end Mindone.Wfca
