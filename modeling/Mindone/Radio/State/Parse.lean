import Mindone.Radio.At.Engine

/-!
# Mindone.Radio.State.Parse

The lines of the modem that carry state (`modem/radio/state/parse.rs`). A line is printable
ASCII, so a text is the list of its bytes, and `str::trim` takes blanks away.
-/

namespace Mindone.Radio

open At (ascii trim isDigit)
open Mindone.Mux (u64Max)

abbrev Text := List UInt8

/-- A text of the source. -/
def text (literal : String) : Text := ascii literal.toList

def u8Max : Nat := 0xff
def u32Max : Nat := 0xffffffff
def i32Max : Int := 0x7fffffff
def i32Min : Int := -0x80000000

/-- `str::strip_prefix` -/
def stripStart (start line : Text) : Option Text :=
  if start.isPrefixOf line then some (line.drop start.length) else none

/-- `str::split` with one byte. -/
def split (separator : UInt8) : Text → List Text
  | [] => [[]]
  | byte :: rest =>
      if byte = separator then [] :: split separator rest
      else
        match split separator rest with
        | [] => [[byte]]
        | field :: fields => (byte :: field) :: fields

/-- `str::contains` with a text. -/
def occurs (part line : Text) : Bool := line.tails.any fun rest => part.isPrefixOf rest

def comma : UInt8 := 0x2c
def quote : UInt8 := 0x22
def minus : UInt8 := 0x2d

/-- The number that decimal digits write. -/
def digitsValue (digits : Text) : Nat := digits.foldl (fun n byte => 10 * n + (byte.toNat - 0x30)) 0

/-- `str::parse` at `i32`: an optional sign, and then digits. -/
def parseI32 (value : Text) : Option Int :=
  let (sign, digits) : Int × Text :=
    match value with
    | 0x2d :: rest => (-1, rest)
    | 0x2b :: rest => (1, rest)
    | _ => (1, value)
  if digits = [] ∨ ¬ digits.all isDigit then none
  else
    let n := sign * digitsValue digits
    if i32Min ≤ n ∧ n ≤ i32Max then some n else none

/-- `str::parse` at an unsigned type that ends at `max`. -/
def parseUnsigned (max : Nat) (value : Text) : Option Nat :=
  let digits : Text :=
    match value with
    | 0x2b :: rest => rest
    | _ => value
  if digits = [] ∨ ¬ digits.all isDigit then none
  else
    let n := digitsValue digits
    if n ≤ max then some n else none

namespace State

inductive ParseError
  | prefixMissing
  | shape
  | number
  | range
  | quotes
  deriving DecidableEq

/-- The value of one field, without its quotes. -/
def unquote (field : Text) : Except ParseError Text :=
  let field := trim field
  if field.head? = some quote ∧ field.getLast? = some quote ∧ 2 ≤ field.length then
    let value := (field.drop 1).dropLast
    if value.contains quote then .error .quotes else .ok value
  else if field.contains quote then .error .quotes
  else .ok field

def fields (line start : Text) : Except ParseError (List Text) :=
  match stripStart start (trim line) with
  | none => .error .prefixMissing
  | some body =>
      let body := trim body
      if body = [] then .error .shape else (split comma body).mapM unquote

/-- The test of `decimal` before it parses: digits, with a minus sign in front at most. -/
def decimalShape : Text → Bool
  | [] => false
  | first :: rest => (isDigit first || first == minus) && rest.all isDigit

/-- `decimal` at `i32`. -/
def decimalSigned (value : Text) : Except ParseError Int :=
  if decimalShape value then
    match parseI32 value with
    | some n => .ok n
    | none => .error .number
  else .error .number

/-- `decimal` at `u32`. -/
def decimal (value : Text) : Except ParseError Nat :=
  if decimalShape value then
    match parseUnsigned u32Max value with
    | some n => .ok n
    | none => .error .number
  else .error .number

/-- An empty field and the field `-1` hold no value. -/
def optional {α : Type} (value : Option Text) (parse : Text → Except ParseError α) :
    Except ParseError (Option α) :=
  match value with
  | none => .ok none
  | some value =>
      if value = [] ∨ value = text "-1" then .ok none else (parse value).map some

def hexDigit (byte : UInt8) : Option Nat :=
  if isDigit byte then some (byte.toNat - 0x30)
  else if 0x61 ≤ byte ∧ byte ≤ 0x66 then some (byte.toNat - 0x57)
  else if 0x41 ≤ byte ∧ byte ≤ 0x46 then some (byte.toNat - 0x37)
  else none

/-- `hex`, at a type that ends at `max`. -/
def hexUpTo (max : Nat) (value : Text) : Except ParseError Nat :=
  let value := ((stripStart (text "0x") value).or (stripStart (text "0X") value)).getD value
  match value.mapM hexDigit with
  | none => .error .number
  | some [] => .error .number
  | some digits =>
      let n := digits.foldl (fun n digit => 16 * n + digit) 0
      if n ≤ max then .ok n else .error .range

/-! ### Registration -/

inductive Context
  | solicited
  | unsolicited
  deriving DecidableEq

inductive Family
  | ereg
  | egreg
  | cregUnverified
  | cgregUnverified
  | ceregUnverified
  deriving DecidableEq

def Family.start : Family → Text
  | .ereg => text "+EREG:"
  | .egreg => text "+EGREG:"
  | .cregUnverified => text "+CREG:"
  | .cgregUnverified => text "+CGREG:"
  | .ceregUnverified => text "+CEREG:"

inductive Extensions
  | cs (emergencyStatus : Option Int) (unverified : List (Option Int)) (rejectCause : Option Int)
  | ps (bearer : Option Nat) (capability rejectCause : Option Int)
      (nrAndStatusUnverified : List (Option Int))
  | plainUnverified (values : List Text)
  deriving DecidableEq

structure RegistrationReport where
  family : Family
  mode : Option Nat
  state : Nat
  area : Option Nat
  cell : Option Nat
  rat : Option Nat
  extensions : Extensions
  deriving DecidableEq

/-- What follows the common fields of a report. -/
def extensions (family : Family) (tail : List Text) : Except ParseError Extensions :=
  match family with
  | .ereg => do
      if tail.length > 4 then throw .shape
      let emergencyStatus ← optional tail[0]? decimalSigned
      let unverified ← ((tail.drop 1).take 2).mapM fun s => optional (some s) decimalSigned
      let rejectCause ← optional tail[3]? decimalSigned
      return .cs emergencyStatus unverified rejectCause
  | .egreg => do
      let bearer ← optional tail[0]? (hexUpTo u32Max)
      let capability ← optional tail[1]? decimalSigned
      let rejectCause ← optional tail[2]? decimalSigned
      let rest ← (tail.drop 3).mapM fun s => optional (some s) decimalSigned
      return .ps bearer capability rejectCause rest
  | _ => return .plainUnverified tail

def registration (line : Text) (family : Family) (context : Context) :
    Except ParseError RegistrationReport := do
  let fields ← fields line family.start
  let offset := if context = .solicited then 1 else 0
  if fields.length ≤ offset then throw .shape
  let mode ← if offset = 1 then (decimal (fields.headD [])).map some else pure none
  let values := fields.drop offset
  if values.length = 2 then throw .shape
  let state ← decimal (values.headD [])
  let area ← optional values[1]? (hexUpTo u32Max)
  let cell ← optional values[2]? (hexUpTo u64Max)
  let rat ← optional values[3]? decimal
  let extensions ← extensions family (values.drop 4)
  return { family, mode, state, area, cell, rat, extensions }

/-! ### Signal, indication -/

/-- A report of `+ECSQ:`: ten values, and three more of the new radio. -/
structure Ecsq where
  values : List Int
  nrCsiUnverified : Option (List Int)
  deriving DecidableEq

def ecsq (line : Text) : Except ParseError Ecsq := do
  let fields ← fields line (text "+ECSQ:")
  if fields.length < 10 then throw .shape
  let values ← (fields.take 10).mapM decimalSigned
  if values[7]? = some 32768 then
    if fields.length ≠ 13 then throw .shape
    let csi ← (fields.drop 10).mapM decimalSigned
    return { values, nrCsiUnverified := some csi }
  else
    if fields.length ≠ 10 then throw .shape
    return { values, nrCsiUnverified := none }

structure Eind where
  code : Nat
  deriving DecidableEq

def eind (line : Text) : Except ParseError Eind := do
  let fields ← fields line (text "+EIND:")
  if fields.length ≠ 1 then throw .shape
  let code ← decimal (fields.headD [])
  return { code }

/-! ### SIM -/

inductive SimApp
  | ready
  | pin
  | puk
  | personalizationUnverified (value : Text)
  | vendorUnverified (value : Text)
  deriving DecidableEq

inductive SimReport
  | cpin (app : SimApp)
  | esims (state status : Nat) (extraUnverified : List Int)
  | eusimUnverified (values : List Int)
  | absent
  | failure
  | busy
  deriving DecidableEq

def personalizations : List Text :=
  [text "PH-NET", text "PH-NETSUB", text "PH-SP", text "PH-CORP", text "PH-FSIM", text "PH-NSSP",
    text "PH-SIMC"]

def personalization (value : Text) : Bool :=
  personalizations.any fun start =>
    (stripStart start value).any fun tail => tail == text " PIN" || tail == text " PUK"

def vendorStates : List Text :=
  [text "EMPTY_EUICC", text "CARD_REBOOT", text "CARD_RESTRICTED", text "SIM PIN-DEFER"]

def simApp (value : Text) : Except ParseError SimApp :=
  if value = text "READY" then .ok .ready
  else if value = text "SIM PIN" then .ok .pin
  else if value = text "SIM PUK" then .ok .puk
  else if personalization value then .ok (.personalizationUnverified value)
  else if vendorStates.contains value then .ok (.vendorUnverified value)
  else .error .range

/-- The error code of a `+CME ERROR:` line that tells of the SIM. -/
def simError (line : Text) : Except ParseError SimReport := do
  let values ← fields line (text "+CME ERROR:")
  if values.length ≠ 1 then throw .shape
  let code ← decimal (values.headD [])
  if code = 10 then return .absent
  else if code = 13 ∨ code = 15 then return .failure
  else if code = 14 then return .busy
  else throw .range

def sim (line : Text) : Except ParseError SimReport :=
  if (text "+CPIN:").isPrefixOf (trim line) then do
    let values ← fields line (text "+CPIN:")
    if values.length ≠ 1 then throw .shape
    return .cpin (← simApp (values.headD []))
  else if (text "+ESIMS:").isPrefixOf (trim line) then do
    let values ← fields line (text "+ESIMS:")
    if values.length < 2 ∨ values.length > 8 then throw .shape
    let state ← decimal (values.headD [])
    if state > 1 then throw .range
    let status ← decimal (values.getD 1 [])
    let extra ← (values.drop 2).mapM decimalSigned
    return .esims state status extra
  else if (text "+EUSIM:").isPrefixOf (trim line) then do
    let values ← fields line (text "+EUSIM:")
    if values.length > 8 then throw .shape
    return .eusimUnverified (← values.mapM decimalSigned)
  else simError line

end State

end Mindone.Radio
