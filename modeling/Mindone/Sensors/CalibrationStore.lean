import Mathlib.Logic.Function.Basic
import Mindone.Lib.Window

/-!
# Mindone.Sensors.CalibrationStore

The calibration of the sensor HAL: the layouts of the regions, the values that are cached for them,
and `buildPayload` in both builds, the plain one (`sensors-hf/CalibrationStore.cpp`) and the one over
the Rust core (`sensors-hf/rust/calibration.rs` and its C interface).

`Reads` is what `readIntArray` returns for the files that a build looks at.
-/

namespace Mindone.Sensors

open Mindone.Lib

/-! ### Layouts -/

inductive Region
  | bias | cali | temp
  deriving DecidableEq

structure RegionLayout where
  offset : Nat
  length : Nat
  deriving DecidableEq

structure SensorLayout where
  sensorType : Nat
  totalLength : Nat
  bias : RegionLayout
  cali : RegionLayout
  temp : RegionLayout
  name : String
  biasFile : Option String
  biasKey : Option String
  caliFile : Option String
  caliKey : Option String
  deriving DecidableEq

def allLayouts : List SensorLayout :=
  [⟨1, 24, ⟨0, 12⟩, ⟨12, 12⟩, ⟨0, 0⟩, "acc", some "acc_bias.json", some "acc_bias",
      some "acc_cali.json", some "acc_cali"⟩,
    ⟨2, 36, ⟨0, 12⟩, ⟨12, 24⟩, ⟨0, 0⟩, "mag", some "mag_bias.json", some "mag_bias",
      some "mag_cali.json", some "mag_cali"⟩,
    ⟨4, 48, ⟨0, 12⟩, ⟨12, 12⟩, ⟨24, 24⟩, "gyro", some "gyro_bias.json", some "gyro_bias",
      some "gyro_cali.json", some "gyro_cali"⟩,
    ⟨5, 4, ⟨0, 0⟩, ⟨0, 4⟩, ⟨0, 0⟩, "light", none, none, some "als_cali.json", some "als_cali"⟩]

def layoutFor (sensorType : Nat) : Option SensorLayout :=
  allLayouts.find? (·.sensorType == sensorType)

def SensorLayout.region (layout : SensorLayout) : Region → RegionLayout
  | .bias => layout.bias
  | .cali => layout.cali
  | .temp => layout.temp

/-! ### The caches -/

def kMinRewriteIntervalMs : Int := 2000

structure CachedRegion where
  values : List Int32 := []
  persistedValues : List Int32 := []
  lastAttemptMs : Int := -kMinRewriteIntervalMs
  haveValue : Bool := false
  havePersistedValue : Bool := false
  pending : Bool := false
  deriving DecidableEq

/-- The three maps from the sensor types. -/
abbrev Caches := Region × Nat → Option CachedRegion

/-- `operator[]` -/
def Caches.entry (caches : Caches) (key : Region × Nat) : CachedRegion := (caches key).getD {}

def allZero (values : List Int32) : Bool := values.all (· == 0)

def seedCache (cache : CachedRegion) (values : List Int32) : CachedRegion :=
  if cache.haveValue ∧ (¬ cache.havePersistedValue ∨ cache.values ≠ cache.persistedValues) then cache
  else { cache with
    values := values
    persistedValues := values
    haveValue := true
    havePersistedValue := true }

/-- `seedCache` of an entry. -/
def Caches.seed (caches : Caches) (region : Region) (layout : SensorLayout) (values : List Int32) :
    Caches :=
  Function.update caches (region, layout.sensorType)
    (some (seedCache (caches.entry (region, layout.sensorType)) values))

/-! ### The plain build -/

/-- What `readIntArray` returns for the file of each region. -/
structure Reads where
  bias : Option (List Int32)
  cali : Option (List Int32)
  temp : Option (List Int32)

/-- The values of the files that are read at all. -/
def Reads.of (reads : Reads) (layout : SensorLayout) : Reads where
  bias := if layout.bias.length > 0 ∧ layout.biasFile.isSome then reads.bias else none
  cali := if layout.cali.length > 0 ∧ layout.caliFile.isSome then reads.cali else none
  temp := if layout.temp.length > 0 then reads.temp else none

/-- An `int32_t` in memory; the target is little-endian. -/
def leBytes (v : Int32) : List UInt8 :=
  [v.toUInt32.toUInt8, (v.toUInt32 >>> 8).toUInt8, (v.toUInt32 >>> 16).toUInt8,
    (v.toUInt32 >>> 24).toUInt8]

namespace Plain

def writeRegion (buf : List UInt8) (region : RegionLayout) (values : List Int32) : List UInt8 :=
  let n := min (region.length / 4) values.length
  if n > 0 then blit buf region.offset ((values.take n).flatMap leBytes) else buf

/-- What `buildPayload` does for a region that has values. -/
def build (layout : SensorLayout) (region : Region) (values : List Int32)
    (state : List UInt8 × Caches) : List UInt8 × Caches :=
  (writeRegion state.1 (layout.region region) values, state.2.seed region layout values)

/-- The cali file may hold the bias as well. -/
def buildCali (layout : SensorLayout) (cali : List Int32) (state : List UInt8 × Caches) :
    List UInt8 × Caches :=
  let biasCount := layout.bias.length / 4
  let caliCount := layout.cali.length / 4
  if layout.bias.length > 0 ∧ cali.length = biasCount + caliCount then
    let biasPart := cali.take biasCount
    let caliPart := cali.drop biasCount
    let buf := writeRegion state.1 layout.bias biasPart
    let buf := writeRegion buf layout.cali caliPart
    (buf, (state.2.seed .bias layout biasPart).seed .cali layout caliPart)
  else build layout .cali cali state

/-- `buildPayload` without the Rust core. -/
def buildPayload (layout : SensorLayout) (reads : Reads) (caches : Caches) :
    List UInt8 × Caches :=
  let reads := reads.of layout
  let state := (List.replicate layout.totalLength 0, caches)
  let state := match reads.bias with
    | some bias => build layout .bias bias state
    | none => state
  let state := match reads.cali with
    | some cali => buildCali layout cali state
    | none => state
  match reads.temp with
  | some temp => build layout .temp temp state
  | none => state

end Plain

/-! ### The Rust core -/

namespace Rust

def calibrationBytes : Nat := 48

inductive Error
  | sensor
  deriving DecidableEq

structure Layout where
  length : Nat
  bias : RegionLayout
  cali : RegionLayout
  temp : RegionLayout
  deriving DecidableEq

def layout (sensorType : Nat) : Except Error Layout :=
  match sensorType with
  | 1 => .ok ⟨24, ⟨0, 12⟩, ⟨12, 12⟩, ⟨0, 0⟩⟩
  | 2 => .ok ⟨36, ⟨0, 12⟩, ⟨12, 24⟩, ⟨0, 0⟩⟩
  | 4 => .ok ⟨48, ⟨0, 12⟩, ⟨12, 12⟩, ⟨24, 24⟩⟩
  | 5 => .ok ⟨4, ⟨0, 0⟩, ⟨0, 4⟩, ⟨0, 0⟩⟩
  | _ => .error .sensor

structure Payload where
  bytes : List UInt8
  layout : Layout
  combined : Bool

/-- `chunks_exact_mut(4).zip(values)`, with each value copied into its chunk. -/
def writeChunks : List UInt8 → List Int32 → List UInt8
  | chunk, [] => chunk
  | chunk, v :: values =>
      if chunk.length < 4 then chunk else leBytes v ++ writeChunks (chunk.drop 4) values

def writeRegion (bytes : List UInt8) (region : RegionLayout) (values : List Int32) : List UInt8 :=
  blit bytes region.offset
    (writeChunks (slice bytes region.offset (region.offset + region.length)) values)

def payload (sensorType : Nat) (bias cali temp : List Int32) : Except Error Payload :=
  match layout sensorType with
  | .error error => .error error
  | .ok layout =>
      let bytes := List.replicate calibrationBytes 0
      let bytes := writeRegion bytes layout.bias bias
      let biasCount := layout.bias.length / 4
      let caliCount := layout.cali.length / 4
      let combined : Bool := biasCount > 0 && cali.length == biasCount + caliCount
      let bytes := if combined then
          writeRegion (writeRegion bytes layout.bias (cali.take biasCount)) layout.cali
            (cali.drop biasCount)
        else writeRegion bytes layout.cali cali
      .ok ⟨writeRegion bytes layout.temp temp, layout, combined⟩

/-- `mindone_hf_calibration_payload`. The words of a vector are aligned and within the address
space, so that only the core can refuse. -/
def calibrationPayload (sensorType : Nat) (bias cali temp : List Int32) : Option Payload :=
  (payload sensorType bias cali temp).toOption

/-- What `buildPayload` checks of the answer. -/
def accepted (layout : SensorLayout) (cali : Option (List Int32)) (result : Payload) : Bool :=
  result.layout.length = layout.totalLength && result.layout.bias = layout.bias &&
    result.layout.cali = layout.cali && result.layout.temp = layout.temp &&
    (!result.combined || cali.any fun cali => result.layout.bias.length ≠ 0 &&
      cali.length = (result.layout.bias.length + result.layout.cali.length) / 4)

/-- The caches are seeded with what the files held. -/
def seedAll (layout : SensorLayout) (reads : Reads) (result : Payload) (caches : Caches) : Caches :=
  let caches := match reads.bias with
    | some bias => caches.seed .bias layout bias
    | none => caches
  let caches := match reads.cali with
    | some cali =>
        if result.combined then
          let biasCount := result.layout.bias.length / 4
          (caches.seed .bias layout (cali.take biasCount)).seed .cali layout (cali.drop biasCount)
        else caches.seed .cali layout cali
    | none => caches
  match reads.temp with
  | some temp => caches.seed .temp layout temp
  | none => caches

/-- `buildPayload` over the Rust core; no bytes are the refusal. -/
def buildPayload (layout : SensorLayout) (reads : Reads) (caches : Caches) :
    List UInt8 × Caches :=
  let reads := reads.of layout
  match calibrationPayload layout.sensorType (reads.bias.getD []) (reads.cali.getD [])
    (reads.temp.getD []) with
  | none => ([], caches)
  | some result =>
      if accepted layout reads.cali result then
        (result.bytes.take result.layout.length, seedAll layout reads result caches)
      else ([], caches)

end Rust

end Mindone.Sensors
