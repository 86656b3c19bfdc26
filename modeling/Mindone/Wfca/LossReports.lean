import Mathlib.Data.Fintype.Basic
import Mindone.Lib.LittleEndian

/-!
# Mindone.Wfca.LossReports

The **packet-loss reports** of the modem (`wfca/wfca.c`): one slot for each PDN, a report overwrites
its slot and makes it fresh, a client's query reads it, and what nobody reads is stale after at most
50 seconds. A step is a section under `g_pdn_lock`; an RDS request has two of them, and answers its
client in between.

Reports are numbered as they come. The numbers, what a request has seen and what became of each
report are the history that the laws speak of; no decision of the code reads them.
-/

namespace Mindone.Wfca.Rds

open Lib

def maxPdn : Nat := 16
def imsaBodyPktLossRptBase : Nat := 20
def imsaBodyPktLossRptExt : Nat := 512

/-- The size of `body` in a slot, and of the reply. -/
def bodyCap : Nat := imsaBodyPktLossRptBase + imsaBodyPktLossRptExt

inductive Status
  | empty
  | fresh
  | stale
  deriving DecidableEq

def Status.code : Status → Nat
  | .empty => 255
  | .fresh => 1
  | .stale => 2

/-! ### Time -/

/-- `struct timespec` -/
structure Timespec where
  tvSec : Int
  tvNsec : Int
  nonneg : 0 ≤ tvNsec
  lt : tvNsec < 1000000000

namespace Timespec

/-- In nanoseconds. -/
def ns (t : Timespec) : Int := t.tvSec * 1000000000 + t.tvNsec

def addSec (t : Timespec) (sec : Int) : Timespec := { t with tvSec := t.tvSec + sec }

end Timespec

/-! ### The state -/

/-- How a report stopped being fresh. -/
inductive Left
  | replaced (newer : Nat)
  | aged
  /-- A request that had read it marked it stale. -/
  | read
  /-- A request that had not read it marked it stale. -/
  | lost
  deriving DecidableEq

/-- What became of a report: how many replies gave it as fresh, and how it stopped being fresh. -/
structure Fate where
  returned : Nat
  left : Option Left
  deriving DecidableEq

/-- `pdn_slot_t`, with the number of the report in `body`. -/
structure Slot where
  status : Status
  pdnId : Nat
  threshold : Nat
  duration : Nat
  body : List UInt8
  bodyLen : Nat
  report : Option Nat
  size : body.length = bodyCap
  fits : bodyLen ≤ bodyCap

/-- A request between its two sections: its slot, the report it read as fresh and its reply. -/
structure Pending where
  pdn : Fin maxPdn
  seen : Option Nat
  reply : List UInt8

structure State where
  slots : Fin maxPdn → Slot
  /-- `g_pdn_gc_deadline` -/
  deadline : Timespec
  /-- What the clock last said. -/
  clock : Timespec
  pending : Option Pending
  /-- The number of the next report. -/
  next : Nat
  fates : Nat → Fate

def Slot.init : Slot where
  status := .empty
  pdnId := 0
  threshold := 0
  duration := 0
  body := List.replicate bodyCap 0
  bodyLen := 0
  report := none
  size := List.length_replicate
  fits := Nat.zero_le _

def State.init (now : Timespec) : State where
  slots := fun _ => .init
  deadline := now.addSec 50
  clock := now
  pending := none
  next := 0
  fates := fun _ => ⟨0, none⟩

/-- The fresh report of a slot. -/
def Slot.held (slot : Slot) : Option Nat := if slot.status = .fresh then slot.report else none

def State.setSlot (s : State) (p : Fin maxPdn) (slot : Slot) : State :=
  { s with slots := fun q => if q = p then slot else s.slots q }

/-- The fresh reports of some slots stop being fresh. -/
def State.leave (s : State) (gone : Fin maxPdn → Bool) (left : Left) : Nat → Fate := fun id =>
  if ∃ p, gone p = true ∧ (s.slots p).held = some id then { s.fates id with left := some left }
  else s.fates id

/-! ### Ageing -/

/-- `now` has reached the deadline. -/
def expired (now deadline : Timespec) : Bool :=
  now.tvSec > deadline.tvSec || now.tvSec == deadline.tvSec && now.tvNsec ≥ deadline.tvNsec

/-- The deadline after one that has expired. -/
def nextDeadline (now deadline : Timespec) : Timespec :=
  let elapsed := now.tvSec - deadline.tvSec
  let elapsed := if now.tvNsec < deadline.tvNsec then elapsed - 1 else elapsed
  deadline.addSec ((Int.tdiv elapsed 50 + 1) * 50)

def Slot.age (slot : Slot) : Slot := if slot.status = .fresh then { slot with status := .stale } else slot

def pdnGcAdvanceLocked (s : State) (now : Timespec) : State :=
  if expired now s.deadline then
    { s with
      slots := fun p => (s.slots p).age
      deadline := nextDeadline now s.deadline
      clock := now
      fates := s.leave (fun _ => true) .aged }
  else { s with clock := now }

/-! ### Reports -/

/-- The report in a slot. -/
def Slot.store (slot : Slot) (id pdnId : Nat) (body : List UInt8) : Slot where
  status := .fresh
  pdnId := pdnId
  threshold := slot.threshold
  duration := slot.duration
  body := body.take bodyCap ++ slot.body.drop (body.take bodyCap).length
  bodyLen := if body.length < bodyCap then body.length else bodyCap
  report := some id
  size := by
    have := slot.size
    simp only [List.length_append, List.length_drop, List.length_take]
    omega
  fits := by split <;> omega

/-- The word at byte 8 names the PDN; what is too large is taken for PDN 0. -/
def reportPdn (body : List UInt8) : Fin maxPdn :=
  if h : leAt 4 body 8 < maxPdn then ⟨leAt 4 body 8, h⟩ else ⟨0, by decide⟩

def handleImsaPktLossRpt (s : State) (body : List UInt8) (now : Timespec) : State :=
  let s := pdnGcAdvanceLocked s now
  let p := reportPdn body
  { s with
    slots := fun q => if q = p then (s.slots p).store s.next p body else s.slots q
    next := s.next + 1
    fates := s.leave (· == p) (.replaced s.next) }

/-! ### Requests -/

/-- The five words of an RDS request. -/
structure Request where
  cmd : Nat
  version : Nat
  pdnId : Nat
  threshold : Nat
  duration : Nat
  deriving DecidableEq

/-- The reply as a query fills it, before it is cut to `reply_len`. -/
def queryReply (slot : Slot) (hasExt : Bool) : List UInt8 :=
  sliceAt slot.body 0 4 ++ toLe 4 slot.status.code ++ sliceAt slot.body 8 12 ++
    (if hasExt && slot.bodyLen > imsaBodyPktLossRptBase then
      sliceAt slot.body imsaBodyPktLossRptBase (slot.bodyLen - imsaBodyPktLossRptBase) ++
        List.replicate (bodyCap - slot.bodyLen) 0
    else List.replicate imsaBodyPktLossRptExt 0)

def replyLen (version : Nat) : Nat := if version = 0 then imsaBodyPktLossRptBase else bodyCap

/-- The reply says that its report is fresh. -/
def saysFresh (reply : List UInt8) : Bool := leAt 4 reply 4 == Status.fresh.code

/-- The section of a config. -/
def config (s : State) (request : Request) (p : Fin maxPdn) : State :=
  { s.setSlot p { s.slots p with
      pdnId := p, threshold := request.threshold, duration := request.duration } with
    pending := some ⟨p, none, (List.replicate bodyCap 0).take (replyLen request.version)⟩ }

/-- The section of a query. -/
def query (s : State) (request : Request) (p : Fin maxPdn) : State :=
  let slot := s.slots p
  let reply := (queryReply slot (request.version == 1)).take (replyLen request.version)
  let seen := if saysFresh reply then slot.report else none
  { s with
    pending := some ⟨p, seen, reply⟩
    fates := fun id =>
      if seen = some id then { s.fates id with returned := (s.fates id).returned + 1 } else s.fates id }

/-- A request up to its answer; while one is between its sections the listener reads no other. -/
def beginRequest (s : State) (request : Request) : Option State :=
  if s.pending.isSome then none
  else if h : request.pdnId < maxPdn then
    match request.cmd with
    | 1 => some (config s request ⟨request.pdnId, h⟩)
    | 2 => some (query s request ⟨request.pdnId, h⟩)
    | _ => some s
  else some s

/-- The second section of a request. -/
def finishRequest (s : State) (pending : Pending) : State :=
  let slot := s.slots pending.pdn
  if slot.status ≠ .empty then
    { s.setSlot pending.pdn { slot with status := .stale } with
      pending := none
      fates := s.leave (· == pending.pdn) (if slot.report = pending.seen then .read else .lost) }
  else { s with pending := none }

/-! ### Steps -/

inductive Event
  /-- A report from the modem. -/
  | report (body : List UInt8) (now : Timespec)
  /-- The ageing thread goes round its loop. -/
  | age (now : Timespec)
  | request (request : Request)
  | finish

/-- A step; the clock is monotonic, and read under the lock. -/
def State.step (s : State) : Event → Option State
  | .report body now =>
      if s.clock.ns ≤ now.ns then some (handleImsaPktLossRpt s body now) else none
  | .age now => if s.clock.ns ≤ now.ns then some (pdnGcAdvanceLocked s now) else none
  | .request request => beginRequest s request
  | .finish => s.pending.map (finishRequest s)

def State.run (s : State) (events : List Event) : Option State := events.foldlM State.step s

end Mindone.Wfca.Rds
