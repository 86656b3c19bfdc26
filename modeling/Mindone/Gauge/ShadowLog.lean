import Mindone.Gauge.Proto
import Mindone.Lib.Program

/-!
# Mindone.Gauge.ShadowLog

The log of the shadow gauge (`gauge/src/shadow.rs`): the line of a row, and the file the lines are
appended to, which is moved aside when it has no room for a line.

Every operation on the files may fail, as `Outcomes` says. A failed operation has no effect, and a
write may write less than it was given. The trace of a disk is not the source's. The way a number
in floating point is printed is a parameter.
-/

namespace Mindone.Gauge.ShadowLog

open Mindone.Lib

abbrev Text := List Char

/-- The bytes of a text. -/
def utf8 (text : Text) : Bytes := text.flatMap String.utf8EncodeChar

/-- A line of cells. -/
def lineOf (cells : List Text) : Text := List.intercalate [','] cells ++ ['\n']

/-- `HEADER` -/
@[irreducible] def header : Bytes :=
  utf8 (lineOf
    ["acquired_ns".toList, "sequence".toList, "status".toList, "voltage_01mv".toList,
      "ptim_discharge_01ma".toList, "charge_in_uah".toList, "gm_capacity_pct".toList,
      "gm_voltage_uv".toList, "gm_current_ua".toList, "gm_charge_counter_uah".toList,
      "gm_status".toList, "gm_temp_01c".toList, "drift_uah".toList, "event".toList])

/-! ### Rows -/

inductive Value (α : Type)
  | ok (value : α)
  | err (error : Text)

structure Gm30 where
  capacity : Value Int64
  voltage : Value Int64
  current : Value Int64
  chargeCounter : Value Int64
  status : Value Text
  temp : Value Int64

structure Row where
  acquiredNs : UInt64
  sequence : UInt64
  status : Text
  voltage : Option Int32
  current : Option Int32
  /-- The bits of an `f64`. -/
  chargeInUah : UInt64
  gm : Gm30
  driftUah : Option UInt64
  gap : Bool

/-- `c.is_ascii_alphanumeric() || "._:+- /()".contains(c)` -/
def isCellChar (c : Char) : Bool := c.isAlphanum || "._:+- /()".toList.contains c

def cell (value : Text) : Text := (value.take 160).map fun c => if isCellChar c then c else '_'

/-- `Display` of a value, whose own text is `text`. -/
def Value.display {α : Type} (text : α → Text) : Value α → Text
  | .ok value => cell (text value)
  | .err error => "err:".toList ++ cell error

def int64Text (value : Int64) : Text := (toString value.toInt).toList

/-- The texts between the commas, where `fixed6` prints with six digits behind the point. -/
def Row.cells (fixed6 : UInt64 → Text) (row : Row) : List Text :=
  let optional : Option Int32 → Text
    | some v => (toString v.toInt).toList
    | none => "unknown".toList
  [ (toString row.acquiredNs.toNat).toList,
    (toString row.sequence.toNat).toList,
    cell row.status,
    optional row.voltage,
    optional row.current,
    fixed6 row.chargeInUah,
    row.gm.capacity.display int64Text,
    row.gm.voltage.display int64Text,
    row.gm.current.display int64Text,
    row.gm.chargeCounter.display int64Text,
    row.gm.status.display id,
    row.gm.temp.display int64Text,
    (row.driftUah.map fixed6).getD "unknown".toList,
    if row.gap then "gap_gt_2_periods:sampling_paused_suspend_or_delay".toList
    else "none".toList ]

def Row.line (fixed6 : UInt64 → Text) (row : Row) : Text := lineOf (row.cells fixed6)

/-! ### Files -/

/-- What happens to the log. -/
inductive Event
  /-- The file was moved to `shadow.csv.1`. -/
  | rotated
  /-- A call of `append_line` returned. -/
  | returned (line : Bytes) (ok : Bool)
  deriving DecidableEq

structure Disk where
  /-- `shadow.csv` -/
  shadow : Option Bytes
  /-- `shadow.csv.1` -/
  rotated : Option Bytes
  previous : Option Bytes
  previousRotated : Option Bytes
  trace : List Event
  deriving DecidableEq

/-- `file.metadata()?.len()` of the file that is open. -/
def Disk.size (disk : Disk) : Nat := (disk.shadow.getD []).length

inductive Error
  | invalidInput
  | writeZero
  | os
  deriving DecidableEq

abbrev FileM := EStateM Error Disk

/-- `?` on an operation with no effect of its own. -/
def check (ok : Bool) : FileM Unit := if ok then pure () else throw .os

/-- What the operating system makes of the operations of a call. -/
structure Outcomes where
  opens : Bool
  metadata : Bool
  syncsFull : Bool
  renames : Bool
  syncsRename : Bool
  reopens : Bool
  /-- How much `write` takes of what it is given, or that it fails. -/
  written : Option Nat
  truncates : Bool
  syncsTruncated : Bool
  syncsData : Bool
  syncsNew : Bool
  deriving DecidableEq

variable (limit : Nat) (line : Bytes) (outcomes : Outcomes)

/-- `options.open(&self.path)?`, which creates the file. -/
def openFile (ok : Bool) : FileM Unit := do
  check ok
  modify fun disk => { disk with shadow := some (disk.shadow.getD []) }

/-- The file is moved aside, and a new one is opened. -/
def rotate : FileM Unit := do
  check outcomes.syncsFull
  check outcomes.renames
  modify fun disk =>
    { disk with shadow := none, rotated := disk.shadow, trace := disk.trace ++ [.rotated] }
  check outcomes.syncsRename
  openFile outcomes.reopens

/-- `file.write(&bytes)?` -/
def write (bytes : Bytes) : FileM Nat :=
  match outcomes.written with
  | none => throw .os
  | some count => do
      modify fun disk =>
        { disk with shadow := disk.shadow.map (· ++ bytes.take count) }
      pure (min count bytes.length)

/-- From the `write` on, with the size of the file before it. -/
def writeLine (size : Nat) : FileM Unit := do
  let bytes := if size = 0 then header ++ line else line
  let written ← write outcomes bytes
  if written ≠ bytes.length then do
    check outcomes.truncates
    modify fun disk => { disk with shadow := disk.shadow.map (·.take size) }
    check outcomes.syncsTruncated
    throw .writeZero
  else do
    check outcomes.syncsData
    if size = 0 then check outcomes.syncsNew else pure ()

def appendLine : FileM Unit :=
  if line.length + header.length > limit then throw .invalidInput
  else do
    openFile outcomes.opens
    check outcomes.metadata
    let disk ← get
    if disk.size + line.length > limit then do
      rotate outcomes
      writeLine line outcomes 0
    else writeLine line outcomes disk.size

/-! ### The start of a log -/

structure StartOutcomes where
  existsShadow : Bool
  existsRotated : Bool
  removesPrevious : Bool
  removesPreviousRotated : Bool
  renamesShadow : Bool
  renamesRotated : Bool
  syncs : Bool
  deriving DecidableEq

/-- `fs::remove_file` or `fs::rename`, for which it is no error that there is no file. -/
def unlessMissing (file : Disk → Option Bytes) (ok : Bool) (change : Disk → Disk) : FileM Unit := do
  let disk ← get
  if (file disk).isSome then do
    check ok
    set (change disk)
  else pure ()

/-- `log.path.try_exists()? || rotated.try_exists()?` -/
def found (outcomes : StartOutcomes) : FileM Bool := do
  let disk ← get
  check outcomes.existsShadow
  if disk.shadow.isSome then pure true
  else do
    check outcomes.existsRotated
    pure disk.rotated.isSome

/-- The files of the run before are moved out of the way. -/
def archive (outcomes : StartOutcomes) : FileM Unit := do
  unlessMissing Disk.previous outcomes.removesPrevious fun disk => { disk with previous := none }
  unlessMissing Disk.previousRotated outcomes.removesPreviousRotated
    fun disk => { disk with previousRotated := none }
  unlessMissing Disk.shadow outcomes.renamesShadow
    fun disk => { disk with shadow := none, previous := disk.shadow }
  unlessMissing Disk.rotated outcomes.renamesRotated
    fun disk => { disk with rotated := none, previousRotated := disk.rotated }
  check outcomes.syncs

/-- `Log::new` -/
def Log.new (outcomes : StartOutcomes) : FileM Unit := do
  let found ← found outcomes
  if found then archive outcomes else pure ()

/-! ### Runs -/

/-- A call, and how it returned. -/
def step (disk : Disk) : Disk :=
  match appendLine limit line outcomes disk with
  | .ok _ disk => { disk with trace := disk.trace ++ [.returned line true] }
  | .error _ disk => { disk with trace := disk.trace ++ [.returned line false] }

/-- The disks that are reached from a new log by calls for which `ok` holds. -/
inductive Reach (limit : Nat) (ok : Disk → Bytes → Outcomes → Prop) : Disk → Prop
  | new {outcomes : StartOutcomes} {before disk : Disk} (htrace : before.trace = [])
      (h : Log.new outcomes before = .ok () disk) : Reach limit ok disk
  | append {disk : Disk} (h : Reach limit ok disk) (line : Bytes) (outcomes : Outcomes)
      (hok : ok disk line outcomes) : Reach limit ok (step limit line outcomes disk)

end Mindone.Gauge.ShadowLog
