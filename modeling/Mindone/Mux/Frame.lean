import Mathlib.Algebra.Ring.Nat
import Mathlib.Data.FinEnum
import Mathlib.Tactic.Common
import Mindone.Lib.Window

/-!
# Mindone.Mux.Frame

GSM 07.10 basic-mode frames and their encoder (`modem/mux/lib.rs`).

A frame on the wire is a flag, an address byte, a control byte, one or two
length bytes, the payload, a checksum and a closing flag. The checksum covers
the header; only for `UI` frames does it cover the payload as well.

`encode` writes into the caller's buffer cell by cell, as the source does.
`wire` says which bytes these are; `encode_eq_ok` connects the two, and every
later proof speaks of `wire`.
-/

namespace Mindone.Mux

open Mindone.Lib

/-- The flag byte that opens and closes a frame. -/
def flag : UInt8 := 0xf9
def pollFinal : UInt8 := 0x10
def ui : UInt8 := 0x03
def uih : UInt8 := 0xef
def maxPayload : Nat := 32767
def maxOverhead : Nat := 7

-- an address has six bits for the channel: tables of channels are indexed by `Fin 64`
instance channels_neZero : NeZero 64 := ⟨by decide⟩

instance channels_lawfulBEq : LawfulBEq (Fin 64) := inferInstance

/-- `usize::MAX` of the 64-bit target. -/
def usizeMax : Nat := 2 ^ 64 - 1

/-- `u64::MAX`. -/
def u64Max : Nat := 2 ^ 64 - 1

/-- `usize::saturating_add`. -/
def saturatingAdd (a b : Nat) : Nat := min (a + b) usizeMax

/-- `u64::checked_add`. -/
def checkedAdd (a b : Nat) : Option Nat := if a + b ≤ u64Max then some (a + b) else none

theorem checkedAdd_eq {a b sum : Nat} (h : checkedAdd a b = some sum) : sum = a + b := by
  unfold checkedAdd at h
  split at h
  · exact (Option.some.inj h).symm
  · cases h

inductive FramingError
  | invalidLimit
  | invalidChannel
  | oversizedPayload
  | insufficientCapacity
  deriving DecidableEq

structure Frame where
  address : UInt8
  control : UInt8
  payload : List UInt8
  deriving DecidableEq

namespace Frame

/-- A command frame for `channel`. -/
def command (channel control : UInt8) (payload : List UInt8) : Except FramingError Frame :=
  if channel ≥ 64 then .error .invalidChannel
  else .ok { address := channel <<< 2 ||| 3, control, payload }

def channel (frame : Frame) : UInt8 := frame.address >>> 2

/-- The control byte without the poll/final bit. -/
def kind (frame : Frame) : UInt8 := frame.control &&& ~~~pollFinal

end Frame

/-- `valid_limit`: whether a payload limit is in `1..=MAX_PAYLOAD`. -/
def ValidLimit (limit : Nat) : Prop := 1 ≤ limit ∧ limit ≤ maxPayload

instance (limit : Nat) : Decidable (ValidLimit limit) :=
  inferInstanceAs (Decidable (_ ∧ _))

def validLimit (limit : Nat) : Except FramingError Unit :=
  if ValidLimit limit then .ok () else .error .invalidLimit

/-! ### The checksum -/

/-- One bit of the reflected CRC-8. -/
def crcBit (crc : UInt8) : UInt8 :=
  if crc &&& 1 ≠ 0 then crc >>> 1 ^^^ 0xe0 else crc >>> 1

/-- One byte: the inner loop of `crc_update`. -/
def crcByte (crc byte : UInt8) : UInt8 := crcBit^[8] (crc ^^^ byte)

def crcUpdate (crc : UInt8) (bytes : List UInt8) : UInt8 := bytes.foldl crcByte crc

/-- Whether the checksum covers the payload: `control & !POLL_FINAL == UI`. -/
def coversPayload (control : UInt8) : Bool := control &&& ~~~pollFinal == ui

/-- The running checksum of a frame before it is complemented. -/
def frameCrc (control : UInt8) (header payload : List UInt8) : UInt8 :=
  let crc := crcUpdate 0xff header
  if coversPayload control then crcUpdate crc payload else crc

/-! ### The encoder -/

/-- The header cells of `encode`: `output[0]` to `output[3]`, or to
`output[4]` for a payload of 128 bytes or more. -/
def writeHeader (frame : Frame) (output : List UInt8) : List UInt8 :=
  let length := frame.payload.length
  let output := output.set 0 flag
  let output := output.set 1 frame.address
  let output := output.set 2 frame.control
  let output := output.set 3 (UInt8.ofNat (length <<< 1))
  if length < 128 then output.set 3 (output.getD 3 0 ||| 1)
  else output.set 4 (UInt8.ofNat (length >>> 7))

/-- `output.len() < n`, decided without walking the whole buffer. -/
def shorterThan (output : List UInt8) (n : Nat) : Bool := n != 0 && (output.drop (n - 1)).isEmpty

theorem shorterThan_iff {output : List UInt8} {n : Nat} :
    shorterThan output n = true ↔ output.length < n := by
  simp only [shorterThan, Bool.and_eq_true, bne_iff_ne, ne_eq, List.isEmpty_iff,
    List.drop_eq_nil_iff]
  omega

/-- Write `frame` to the front of `output`: the number of bytes written and
the buffer afterwards. On an error the buffer is left alone. -/
def encode (frame : Frame) (limit : Nat) (output : List UInt8) :
    Except FramingError (Nat × List UInt8) := do
  validLimit limit
  let length := frame.payload.length
  if length > limit then
    throw .oversizedPayload
  let headerLength := if length < 128 then 4 else 5
  let total := headerLength + length + 2
  if shorterThan output total then
    throw .insufficientCapacity
  let output := writeHeader frame output
  let output := blit output headerLength frame.payload
  let crc := crcUpdate 0xff (slice output 1 headerLength)
  let crc := if coversPayload frame.control then crcUpdate crc frame.payload else crc
  let output := output.set (headerLength + length) (~~~crc)
  let output := output.set (headerLength + length + 1) flag
  return (total, output)

/-! ### What the encoder writes -/

/-- The length bytes: one with the extension bit set, or two. -/
def lengthField (length : Nat) : List UInt8 :=
  if length < 128 then [UInt8.ofNat (length <<< 1) ||| 1]
  else [UInt8.ofNat (length <<< 1), UInt8.ofNat (length >>> 7)]

namespace Frame

/-- The bytes between the opening flag and the payload. -/
def header (frame : Frame) : List UInt8 :=
  frame.address :: frame.control :: lengthField frame.payload.length

/-- The checksum byte on the wire. -/
def fcs (frame : Frame) : UInt8 := ~~~(frameCrc frame.control frame.header frame.payload)

/-- The frame after its opening flag. -/
def body (frame : Frame) : List UInt8 :=
  frame.header ++ frame.payload ++ [frame.fcs, flag]

/-- The bytes of a frame on the wire. -/
def wire (frame : Frame) : List UInt8 := flag :: frame.body

end Frame

/-- The bytes a payload of the given length takes on the wire
(`wire_length` of `transport.rs`). -/
def wireLength (payload : Nat) : Nat := payload + if payload < 128 then 6 else maxOverhead

theorem wire_length (frame : Frame) : frame.wire.length = wireLength frame.payload.length := by
  unfold Frame.wire Frame.body Frame.header lengthField wireLength maxOverhead
  split <;> simp

theorem flag_header_length (frame : Frame) :
    (flag :: frame.header).length = if frame.payload.length < 128 then 4 else 5 := by
  unfold Frame.header lengthField
  split <;> rfl

theorem header_add_payload_add_two (length : Nat) :
    (if length < 128 then 4 else 5) + length + 2 = wireLength length := by
  unfold wireLength maxOverhead
  split <;> omega

theorem six_le_wireLength (length : Nat) : 6 ≤ wireLength length := by
  unfold wireLength maxOverhead
  split <;> omega

/-- The header goes to the front of the buffer. -/
theorem writeHeader_eq_blit {frame : Frame} {output : List UInt8} (h : 6 ≤ output.length) :
    writeHeader frame output = blit output 0 (flag :: frame.header) := by
  have h1 : output.set 0 flag = blit output 0 [flag] := set_eq_blit (by omega) _
  have h3 : ((output.set 0 flag).set 1 frame.address).set 2 frame.control =
      blit output 0 [flag, frame.address, frame.control] := by
    rw [h1, set_blit_zero (k := 1) (s := [flag]) rfl (by omega),
      set_blit_zero (k := 2) rfl (by omega)]
    rfl
  have hset : ∀ a, (blit output 0 [flag, frame.address, frame.control]).set 3 a =
      blit output 0 [flag, frame.address, frame.control, a] := fun a =>
    set_blit_zero (k := 3) rfl (by omega) a
  have hread : ∀ a, (blit output 0 [flag, frame.address, frame.control, a]).getD 3 0 = a := by
    intro a
    simp [blit_zero]
  simp only [writeHeader, h3, hset, hread]
  split
  case isTrue hshort =>
      rw [← hset, List.set_set, hset]
      simp [Frame.header, lengthField, hshort]
  case isFalse hlong =>
      rw [set_blit_zero (k := 4) rfl (by omega)]
      simp [Frame.header, lengthField, hlong]

/-- A successful `encode` puts the frame's wire bytes at the front of the
buffer and leaves the rest of it alone. -/
theorem encode_eq_ok {frame : Frame} {limit : Nat} {output : List UInt8}
    (hlimit : ValidLimit limit) (hpayload : frame.payload.length ≤ limit)
    (hroom : wireLength frame.payload.length ≤ output.length) :
    encode frame limit output =
      .ok (wireLength frame.payload.length, blit output 0 frame.wire) := by
  have hsix := six_le_wireLength frame.payload.length
  have hhdr := flag_header_length frame
  have htotal := header_add_payload_add_two frame.payload.length
  have hlen : ¬ frame.payload.length > limit := by omega
  unfold encode validLimit
  simp only [hlimit, hlen, if_true, if_false, htotal, shorterThan_iff, Nat.not_lt.mpr hroom, bind,
    Except.bind, pure, Except.pure]
  rw [writeHeader_eq_blit (by omega)]
  generalize (if frame.payload.length < 128 then 4 else 5) = h at *
  have hpay : ((flag :: frame.header) ++ frame.payload).length = h + frame.payload.length := by
    rw [List.length_append, hhdr]
  have hcrc : slice (blit output 0 ((flag :: frame.header) ++ frame.payload)) 1 h =
      frame.header := by
    rw [slice, blit_zero, List.append_assoc, List.take_left' hhdr]
    rfl
  rw [blit_blit_zero hhdr.symm (by omega), hcrc, set_blit_zero hpay.symm (by omega),
    set_blit_zero (by rw [List.length_append, hpay]; rfl) (by omega)]
  simp [Frame.wire, Frame.body, Frame.fcs, frameCrc]

theorem encode_oversized {frame : Frame} {limit : Nat} {output : List UInt8}
    (hlimit : ValidLimit limit) (h : frame.payload.length > limit) :
    encode frame limit output = .error .oversizedPayload := by
  simp only [encode, validLimit, hlimit, if_true, h]
  rfl

theorem encode_short {frame : Frame} {limit : Nat} {output : List UInt8}
    (hlimit : ValidLimit limit) (hpayload : frame.payload.length ≤ limit)
    (h : output.length < wireLength frame.payload.length) :
    encode frame limit output = .error .insufficientCapacity := by
  have htotal := header_add_payload_add_two frame.payload.length
  have hlen : ¬ frame.payload.length > limit := by omega
  simp only [encode, validLimit, hlimit, hlen, if_true, if_false, htotal, shorterThan_iff, h]
  rfl

/-- The bytes `encode` writes for a frame, into a buffer that has room for
them. -/
def encoded (limit : Nat) (frame : Frame) : List UInt8 :=
  match encode frame limit (List.replicate (frame.payload.length + maxOverhead) 0) with
  | .ok (total, output) => output.take total
  | .error _ => []

theorem encoded_eq_wire {limit : Nat} {frame : Frame} (hlimit : ValidLimit limit)
    (hpayload : frame.payload.length ≤ limit) : encoded limit frame = frame.wire := by
  have hroom : wireLength frame.payload.length ≤
      (List.replicate (frame.payload.length + maxOverhead) (0 : UInt8)).length := by
    rw [List.length_replicate]
    unfold wireLength maxOverhead
    split <;> omega
  rw [encoded, encode_eq_ok hlimit hpayload hroom]
  simp only [blit_zero, ← wire_length]
  exact List.take_left' rfl

end Mindone.Mux
