import Mindone.Lib.LittleEndian
import Mindone.Lib.Units
import Mindone.Lib.Window

/-!
# Mindone.Wfca.Reader

The **reader of the modem's messages** (`imsa_reader_drain`, `wfca/wfca.c`). A message is a header of
four bytes, a body of the size that goes with its type, and for two types what the body announces.
The reader keeps its position in five static variables from one read to the next and from one call
to the next; the grammar it is to follow is stated apart from it, on the whole stream.
-/

namespace Mindone.Wfca.Imsa

open Lib

abbrev Bytes := List UInt8

/-! ### Messages -/

def imsaMsgFilterRegisterReq : UInt8 := 1
def imsaMsgFilterDeregisterReq : UInt8 := 4
def imsaMsgFilterUpdateReq : UInt8 := 5
def imsaMsgResetReq : UInt8 := 7
def imsaMsgPktLossRpt : UInt8 := 10
def imsaMsgPingPcscfTrigger : UInt8 := 11
def imsaMsgSend : UInt8 := 128

def imsaHdrLen : Nat := 4
def imsaBodyFilterRegister : Nat := 52
def imsaBodyFilterDeregister : Nat := 8
def imsaBodyPktLossRptBase : Nat := 20
def imsaBodyPktLossRptExt : Nat := 512
def imsaBodyPingPcscf : Nat := 24
def imsaBodySendHdr : Nat := 56
def imsaMsgMax : Nat := imsaHdrLen + imsaBodySendHdr + 1500

/-- What a handler is called with: its length is that of `body`. -/
structure Message where
  type : UInt8
  body : Bytes
  deriving DecidableEq

def imsaBodySizeFor (type : UInt8) : Int :=
  if type = imsaMsgFilterRegisterReq ∨ type = imsaMsgFilterUpdateReq then
    imsaBodyFilterRegister
  else if type = imsaMsgFilterDeregisterReq then imsaBodyFilterDeregister
  else if type = imsaMsgResetReq then 0
  else if type = imsaMsgPingPcscfTrigger then imsaBodyPingPcscf
  else if type = imsaMsgPktLossRpt then -10
  else if type = imsaMsgSend then -128
  else -1

/-! ### The reader -/

/-- The static variables of `imsa_reader_drain`. -/
structure Reader where
  frame : Bytes
  haveLen : Nat
  need : Nat
  stage : Nat
  discard : Nat
  deriving DecidableEq

def Reader.init : Reader := ⟨List.replicate imsaMsgMax 0, 0, imsaHdrLen, 0, 0⟩

/-- One turn of the loop: the reader after it, the message it has handled, and whether the loop goes
on or the call returns. -/
structure Turn where
  reader : Reader
  handled : Option Message
  continues : Bool

/-- How many bytes the next read asks for. -/
def Reader.want (reader : Reader) : Nat :=
  if reader.discard ≠ 0 then if reader.discard < 512 then reader.discard else 512
  else reader.need - reader.haveLen

def Reader.type (reader : Reader) : UInt8 := reader.frame.getD 0 0

def Reader.body (reader : Reader) : Bytes := reader.frame.drop imsaHdrLen

/-- The handler is called. -/
def deliver (reader : Reader) : Turn where
  reader := { reader with haveLen := 0, need := imsaHdrLen, stage := 0 }
  handled := some ⟨reader.type, reader.body.take (reader.haveLen - imsaHdrLen)⟩
  continues := true

/-- The body is there, and perhaps what it announces. -/
def bodyTurn (reader : Reader) : Turn :=
  let type := reader.type
  if reader.stage = 1 ∧ (type = imsaMsgSend ∨ type = imsaMsgPktLossRpt) then
    let extra := leAt 4 reader.body (if type = imsaMsgSend then 52 else 0)
    let extra := if type = imsaMsgPktLossRpt then
      if extra = 1 then imsaBodyPktLossRptExt else 0 else extra
    let reader := { reader with stage := 2 }
    if extra > imsaMsgMax - reader.need then ⟨{ reader with discard := extra }, none, true⟩
    else
      let reader := { reader with need := reader.need + extra }
      if reader.haveLen ≠ reader.need then ⟨reader, none, true⟩ else deliver reader
  else deliver reader

/-- The header is there. -/
def headerTurn (reader : Reader) : Turn :=
  let size := imsaBodySizeFor reader.type
  let size : Int := if size = -10 then imsaBodyPktLossRptBase
    else if size = -128 then imsaBodySendHdr else size
  if size < 0 then ⟨{ reader with haveLen := 0 }, none, false⟩
  else
    let reader := { reader with need := reader.need + size.toNat, stage := 1 }
    if reader.haveLen ≠ reader.need then ⟨reader, none, true⟩ else bodyTurn reader

/-- A read has brought some bytes. -/
def received (reader : Reader) (chunk : Bytes) : Turn :=
  if reader.discard ≠ 0 then
    let discard := reader.discard - chunk.length
    if discard = 0 then
      ⟨{ reader with haveLen := 0, need := imsaHdrLen, stage := 0, discard := 0 }, none, true⟩
    else ⟨{ reader with discard := discard }, none, true⟩
  else
    let reader := { reader with
      frame := blit reader.frame reader.haveLen chunk
      haveLen := reader.haveLen + chunk.length }
    if reader.haveLen ≠ reader.need then ⟨reader, none, true⟩
    else if reader.stage = 0 then headerTurn reader
    else bodyTurn reader

/-! ### The device -/

/-- How a read ends. -/
inductive Outcome
  /-- It brings some of the bytes it asked for. -/
  | bytes (n : Nat)
  | interrupted
  | wouldBlock
  /-- The end of the stream, or another error. -/
  | failed
  deriving DecidableEq

/-- The reader, what the device still holds, and what has been handled. -/
structure Link where
  reader : Reader
  stream : Bytes
  handled : List Message
  deriving DecidableEq

def Link.init (stream : Bytes) : Link := ⟨.init, stream, []⟩

/-- One read and its turn, and whether the loop goes on; a read brings at least one byte and no more
than it asked for or the device holds. -/
def Link.read (link : Link) : Outcome → Option (Link × Bool)
  | .interrupted => some (link, true)
  | .wouldBlock => some (link, false)
  | .failed =>
      some ({ link with reader := { link.reader with
        haveLen := 0, need := imsaHdrLen, stage := 0, discard := 0 } }, false)
  | .bytes n =>
      if 0 < n ∧ n ≤ link.reader.want ∧ n ≤ link.stream.length then
        let turn := received link.reader (link.stream.take n)
        some (⟨turn.reader, link.stream.drop n, link.handled ++ turn.handled.toList⟩, turn.continues)
      else none

/-- One call: its reads are those up to the one that makes it return, or the ones made so far. -/
def imsaReaderDrain (link : Link) : List Outcome → Option Link
  | [] => some link
  | outcome :: outcomes =>
      match link.read outcome with
      | none => none
      | some (link, true) => imsaReaderDrain link outcomes
      | some (link, false) => if outcomes = [] then some link else none

/-- Call after call. -/
def Link.calls (link : Link) (calls : List (List Outcome)) : Option Link :=
  calls.foldlM imsaReaderDrain link

/-! ### The grammar -/

/-- The size of the body that goes with a type. -/
def bodySize (type : UInt8) : Option Nat :=
  if type = imsaMsgFilterRegisterReq ∨ type = imsaMsgFilterUpdateReq then some 52
  else if type = imsaMsgFilterDeregisterReq then some 8
  else if type = imsaMsgResetReq then some 0
  else if type = imsaMsgPingPcscfTrigger then some 24
  else if type = imsaMsgPktLossRpt then some 20
  else if type = imsaMsgSend then some 56
  else none

/-- How much a body announces behind itself. -/
def announced (type : UInt8) (body : Bytes) : Nat :=
  if type = imsaMsgSend then leAt 4 body 52
  else if type = imsaMsgPktLossRpt then if leAt 4 body 0 = 1 then 512 else 0
  else 0

/-- The first unit of a stream: a message, one that is too large, or a header of unknown type. -/
def unit (stream : Bytes) : Option (Option Message × Nat) :=
  if stream.length < 4 then none
  else match bodySize (stream.getD 0 0) with
    | none => some (none, 4)
    | some size =>
        if stream.length < 4 + size then none
        else
          let total := 4 + size + announced (stream.getD 0 0) (stream.drop 4)
          if stream.length < total then none
          else if imsaMsgMax < total then some (none, total)
          else some (some ⟨stream.getD 0 0, (stream.take total).drop 4⟩, total)

/-- The messages of a stream. -/
def messages (stream : Bytes) : List Message := units unit stream

/-! ### What the handlers read -/

/-- The fields of `filter_addr`, for an address family, an address and a port. -/
def addressFields (version : UInt8) (ip port : Nat) : List (Nat × Nat) :=
  (port, 2) :: if version = 1 then [(ip, 4)] else if version = 2 then [(ip, 16)] else []

/-- The offsets and sizes that a handler reads of a body; a write of the payload to the relay or a
socket reads it too. -/
def fieldsRead (message : Message) : List (Nat × Nat) :=
  let body := message.body
  let len := body.length
  let version := body.getD 9 0
  if message.type = imsaMsgFilterRegisterReq ∨ message.type = imsaMsgFilterUpdateReq then
    [(0, 4), (9, 1)] ++ addressFields version 10 42 ++ [(0, 52), (46, 1), (47, 1), (48, 4)]
  else if message.type = imsaMsgFilterDeregisterReq then [(0, 4)]
  else if message.type = imsaMsgPingPcscfTrigger then
    if len ≠ imsaBodyPingPcscf then [] else [(0, 4), (0, 24)]
  else if message.type = imsaMsgPktLossRpt then [(0, 4), (8, 4), (0, min len 532)]
  else if message.type = imsaMsgSend then
    if len < imsaBodySendHdr then []
    else
      let payloadLen := leAt 4 body 52
      -- the sum is one of 32 bits
      let payloadLen := if (imsaBodySendHdr + payloadLen) % 2 ^ 32 > len then
        len - imsaBodySendHdr else payloadLen
      [(0, 4), (9, 1), (52, 4), (56, payloadLen)] ++ addressFields version 26 44
  else []

end Mindone.Wfca.Imsa
