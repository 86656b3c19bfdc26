import Mindone.Lib.Checked
import Mindone.Lib.LittleEndian

/-!
# Mindone.Rpc.Wire

The records on `/dev/ccci_rpc` as `modem/ccci-userspace/rpc-wire/wire.rs` reads and writes them: a
CCCI header of four words, an operation, the number of arguments, and the arguments, each with its
length in front and padded to whole words. Every index and every sum of the source is checked: where
the Rust program would panic, so does the model. The request keeps the arguments it has, in place of
an array of `MAX_ARGUMENTS` slices and a count.
-/

namespace Mindone.Rpc

open Lib Lib.Checked

abbrev Bytes := List UInt8

def recordBytes : Nat := 24
def maxRecordBytes : Nat := 2048
def maxArguments : Nat := 6
def maxRequestIndex : UInt32 := 2
def rxChannel : UInt16 := 32
def txChannel : UInt16 := 33
def responseMask : UInt32 := 0xffff0000

inductive Error where
  | truncated
  | oversizedRecord
  | channel
  | requestIndex
  | responseOpcode
  | tooManyArguments
  | argumentLength
  | missingPadding
  | trailingBytes
  | outputCapacity
  deriving DecidableEq

structure Header where
  data0 : UInt32
  data1 : UInt32
  channel : UInt16
  sequence : UInt16
  asserted : Bool
  requestIndex : UInt32
  deriving DecidableEq

structure Request where
  header : Header
  opcode : UInt32
  arguments : List Bytes
  deriving DecidableEq

/-! ### Words -/

/-- `u32::from_le_bytes` -/
def fromLeBytes (bytes : Bytes) : UInt32 := UInt32.ofNat (ofLe bytes)

/-- `u32::to_le_bytes` -/
def toLeBytes (value : UInt32) : Bytes := toLe 4 value.toNat

def word (input : Bytes) (offset : Nat) : Except (Stop Error) UInt32 := do
  let stop ← add offset 4
  -- `input.get(..)`, which does not panic
  if stop ≤ input.length then return fromLeBytes (sliceAt input offset 4)
  else throw (.error .truncated)

/-- `(length + 3) & !3` -/
def aligned (length : Nat) : Except (Stop Error) Nat := do
  let sum ← add length 3
  return sum / 4 * 4

/-! ### Requests -/

def Header.ofWords (data0 data1 channelWord requestIndex : UInt32) : Header where
  data0
  data1
  channel := channelWord.toUInt16
  sequence := ((channelWord >>> 16) &&& 0x7fff).toUInt16
  asserted := channelWord &&& 0x80000000 != 0
  requestIndex

/-- The loop of `Request::parse` over the arguments that are still to come. -/
def parseArguments (input : Bytes) : Nat → Nat → Except (Stop Error) (List Bytes × Nat)
  | 0, offset => return ([], offset)
  | count + 1, offset => do
      let length ← word input offset
      let offset ← add offset 4
      let room ← sub input.length offset
      if length.toNat > room then throw (.error .argumentLength)
      else do
        let stop ← add offset length.toNat
        let argument ← slice input offset stop
        let padded ← aligned length.toNat
        let offset ← add offset padded
        if offset > input.length then throw (.error .missingPadding)
        else do
          let (arguments, offset) ← parseArguments input count offset
          return (argument :: arguments, offset)

def Request.parse (input : Bytes) : Except (Stop Error) Request :=
  if input.length < recordBytes then throw (.error .truncated)
  else if input.length > maxRecordBytes then throw (.error .oversizedRecord)
  else do
    let channelWord ← word input 8
    let data0 ← word input 0
    let data1 ← word input 4
    let requestIndex ← word input 12
    let header := Header.ofWords data0 data1 channelWord requestIndex
    if header.channel ≠ rxChannel then throw (.error .channel)
    else if header.requestIndex > maxRequestIndex then throw (.error .requestIndex)
    else do
      let opcode ← word input 16
      if opcode &&& responseMask ≠ 0 then throw (.error .responseOpcode)
      else do
        let count ← word input 20
        if count.toNat > maxArguments then throw (.error .tooManyArguments)
        else do
          let (arguments, offset) ← parseArguments input count.toNat recordBytes
          if offset ≠ input.length then throw (.error .trailingBytes)
          else return { header, opcode, arguments }

/-! ### Responses -/

/-- The program that fills the output, which it keeps when it stops. -/
abbrev Encoder := EStateM (Stop Error) Bytes

/-- The loop of `encode_response` that adds up the length. -/
def encodedLength : List Bytes → Nat → Except (Stop Error) Nat
  | [], length => return length
  | argument :: arguments, length =>
      if argument.length > maxRecordBytes then throw (.error .oversizedRecord)
      else do
        let padded ← aligned argument.length
        let size ← add 4 padded
        let length ← add length size
        if length > maxRecordBytes then throw (.error .oversizedRecord)
        else encodedLength arguments length

/-- The loop of `encode_response` that writes the arguments. -/
def writeArguments : List Bytes → Nat → Encoder PUnit
  | [], _ => return
  | argument :: arguments, offset => do
      let stop ← ofExcept (add offset 4)
      copyFromSlice offset stop (toLe 4 argument.length)
      let offset := stop
      let stop ← ofExcept (add offset argument.length)
      copyFromSlice offset stop argument
      let padded ← ofExcept (aligned argument.length)
      let offset ← ofExcept (add offset padded)
      writeArguments arguments offset

/-- The word with the channel, the sequence number and the assert bit. -/
def channelWord (channel sequence : UInt16) (asserted : Bool) : UInt32 :=
  channel.toUInt32 ||| (sequence.toUInt32 <<< 16) ||| if asserted then 0x80000000 else 0

/-- The six words in front of the arguments. -/
def writeHeader (request : Request) (length count : Nat) : Encoder PUnit := do
  copyFromSlice 0 4 (toLeBytes request.header.data0)
  copyFromSlice 4 8 (toLe 4 length)
  copyFromSlice 8 12 (toLeBytes (channelWord txChannel request.header.sequence
    request.header.asserted))
  copyFromSlice 12 16 (toLeBytes request.header.requestIndex)
  copyFromSlice 16 20 (toLeBytes (request.opcode ||| responseMask))
  copyFromSlice 20 24 (toLe 4 count)

def encodeResponse (request : Request) (arguments : List Bytes) : Encoder Nat :=
  if arguments.length > maxArguments then throw (.error .tooManyArguments)
  else do
    let length ← ofExcept (encodedLength arguments recordBytes)
    let output ← get
    if output.length < length then throw (.error .outputCapacity)
    else do
      copyFromSlice 0 length (List.replicate length 0)
      writeHeader request length arguments.length
      writeArguments arguments recordBytes
      return length

end Mindone.Rpc
