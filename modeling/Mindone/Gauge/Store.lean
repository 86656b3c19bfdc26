import Mindone.Gauge.Proto
import Mindone.Lib.Checksum

/-!
# Mindone.Gauge.Store

The two records of the gauge that are kept in files (`gauge/src/store.rs`): a magic number, a version,
the length of the payload, the payload and a CRC-32 over what stands in front of it. A number in
floating point is its 64 bits. The files themselves are left out.
-/

namespace Mindone.Gauge

open Mindone.Lib

namespace Store

/-- `b"M1GAUGE\0"` -/
def magic : Bytes := [0x4d, 0x31, 0x47, 0x41, 0x55, 0x47, 0x45, 0x00]

def version : UInt32 := 1
def payloadLen : Nat := 24
def recordLen : Nat := 44

inductive ValueError
  | zeroQmax
  | permille
  | zeroSampleSequence
  deriving DecidableEq

inductive Error
  | length
  | magic
  | version (version : UInt32)
  | crc
  | value (error : ValueError)
  deriving DecidableEq

/-- `From<ValueError>`, as `?` uses it. -/
def value {α : Type} : Except ValueError α → Except Error α
  | .ok a => .ok a
  | .error e => .error (.value e)

/-! ### The checksum -/

/-- One turn of the inner loop. -/
def crcBit (crc : UInt32) : UInt32 := (crc >>> 1) ^^^ (0xedb88320 &&& (0 - (crc &&& 1)))

def crc32 (bytes : Bytes) : UInt32 :=
  ~~~ bytes.foldl (fun crc byte => crcBit^[8] (crc ^^^ byte.toUInt32)) (~~~ 0)

end Store

open Store

/-! ### Values -/

structure MicroampHours where
  get : UInt32
  ne_zero : get ≠ 0
  deriving DecidableEq

def MicroampHours.new (value : UInt32) : Except ValueError MicroampHours :=
  if h : value = 0 then throw .zeroQmax else pure ⟨value, h⟩

structure Permille where
  get : UInt32
  le : get ≤ 1000
  deriving DecidableEq

def Permille.new (value : UInt32) : Except ValueError Permille :=
  if h : value > 1000 then throw .permille else pure ⟨value, UInt32.not_lt.mp h⟩

structure CycleCount where
  get : UInt32
  deriving DecidableEq

structure SampleSequence where
  get : UInt64
  ne_zero : get ≠ 0
  deriving DecidableEq

def SampleSequence.new (value : UInt64) : Except ValueError SampleSequence :=
  if h : value = 0 then throw .zeroSampleSequence else pure ⟨value, h⟩

/-! ### The learned state -/

@[ext] structure LearnedState where
  qmaxUah : MicroampHours
  agingFactorPermille : Permille
  cycleCount : CycleCount
  lastSocPermille : Permille
  lastSocSampleSequence : SampleSequence
  deriving DecidableEq

namespace LearnedState

def encode (state : LearnedState) : Bytes :=
  let out := List.replicate recordLen 0
  let out := put out 0 magic
  let out := putAll out
    [(8, u32Bytes version), (12, u32Bytes (UInt32.ofNat payloadLen)), (16, u32Bytes state.qmaxUah.get),
      (20, u32Bytes state.agingFactorPermille.get), (24, u32Bytes state.cycleCount.get),
      (28, u32Bytes state.lastSocPermille.get)]
  let out := put out 32 (u64Bytes state.lastSocSampleSequence.get)
  put out 40 (u32Bytes (crc32 (out.take 40)))

def decode (bytes : Bytes) : Except Error LearnedState :=
  if bytes.length ≠ recordLen then throw .length
  else if sliceAt bytes 0 8 ≠ magic then throw .magic
  else if u32At bytes 8 ≠ version then throw (.version (u32At bytes 8))
  else if u32At bytes 12 ≠ UInt32.ofNat payloadLen then throw .length
  else if crc32 (bytes.take 40) ≠ u32At bytes 40 then throw .crc
  else do
    let qmaxUah ← value (MicroampHours.new (u32At bytes 16))
    let agingFactorPermille ← value (Permille.new (u32At bytes 20))
    let cycleCount := ⟨u32At bytes 24⟩
    let lastSocPermille ← value (Permille.new (u32At bytes 28))
    let lastSocSampleSequence ← value (SampleSequence.new (u64At bytes 32))
    pure { qmaxUah, agingFactorPermille, cycleCount, lastSocPermille, lastSocSampleSequence }

end LearnedState

/-! ### The shadow state -/

/-- `f64::is_finite`, on the bits of the number. -/
def isFinite (bits : UInt64) : Bool := bits &&& 0x7ff0000000000000 != 0x7ff0000000000000

@[ext] structure ShadowState where
  qmaxUah : Option MicroampHours
  agingFactorPermille : Option Permille
  cycleCount : Option CycleCount
  /-- The bits of an `f64`. -/
  chargeInUah : UInt64
  acquiredNs : UInt64
  sequence : UInt64
  deriving DecidableEq

namespace ShadowState

/-- `u32::from(..) | (u32::from(..) << 1) | (u32::from(..) << 2)` -/
def flagWord (qmax aging cycle : Bool) : UInt32 :=
  qmax.toUInt32 ||| (aging.toUInt32 <<< 1) ||| (cycle.toUInt32 <<< 2)

def encode (state : ShadowState) : Except Error Bytes :=
  if !isFinite state.chargeInUah then throw .length
  else
    let out := List.replicate 68 0
    let out := put out 0 magic
    let out := putAll out
      [(8, u32Bytes 3), (12, u32Bytes 48),
        (16, u32Bytes (flagWord state.qmaxUah.isSome state.agingFactorPermille.isSome
          state.cycleCount.isSome)),
        (20, u32Bytes ((state.qmaxUah.map MicroampHours.get).getD 0)),
        (24, u32Bytes ((state.agingFactorPermille.map Permille.get).getD 0)),
        (28, u32Bytes ((state.cycleCount.map CycleCount.get).getD 0))]
    let out := put out 32 (u64Bytes state.chargeInUah)
    let out := put out 40 (u64Bytes state.acquiredNs)
    let out := put out 48 (u64Bytes state.sequence)
    pure (put out 64 (u32Bytes (crc32 (out.take 64))))

/-- A field that is there when its flag is set. -/
def optional {α : Type} (present : Bool) (new : UInt32 → Except ValueError α) (word : UInt32) :
    Except Error (Option α) :=
  if present then do
    let a ← value (new word)
    pure (some a)
  else pure none

def decode (bytes : Bytes) : Except Error ShadowState :=
  let flags := u32At bytes 16
  let chargeInUah := u64At bytes 32
  if bytes.length ≠ 68 then throw .length
  else if sliceAt bytes 0 8 ≠ magic then throw .magic
  else if u32At bytes 8 ≠ 3 then throw (.version (u32At bytes 8))
  else if u32At bytes 12 ≠ 48 ∨ flags &&& ~~~ 7 ≠ 0 ∨ sliceAt bytes 56 8 ≠ List.replicate 8 0 then
    throw .length
  else if crc32 (bytes.take 64) ≠ u32At bytes 64 then throw .crc
  else if [(1, 20), (2, 24), (4, 28)].any fun (bit, offset) =>
      flags &&& bit == 0 && u32At bytes offset != 0 then throw .length
  else if !isFinite chargeInUah then throw .length
  else do
    let qmaxUah ← optional (flags &&& 1 != 0) MicroampHours.new (u32At bytes 20)
    let agingFactorPermille ← optional (flags &&& 2 != 0) Permille.new (u32At bytes 24)
    let cycleCount ← optional (flags &&& 4 != 0) (fun word => pure ⟨word⟩) (u32At bytes 28)
    pure
      { qmaxUah, agingFactorPermille, cycleCount, chargeInUah
        acquiredNs := u64At bytes 40
        sequence := u64At bytes 48 }

end ShadowState

end Mindone.Gauge
