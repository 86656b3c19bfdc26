import Mindone.Lib.LittleEndian

/-!
# Mindone.Gauge.Proto

The sample of the fuel gauge as it comes from the kernel (`gauge/src/proto.rs`). A record is written
into a buffer of zeros, field by field; what is read of it goes by fixed offsets, behind a check of
the length.

**Every accepted text is the encoding of its sample** (`PtimSampleV1.decode_eq_ok_iff`).
-/

namespace Mindone.Gauge

open Mindone.Lib

abbrev Bytes := List UInt8

/-! ### Fields -/

/-- `out[offset..offset + field.len()].copy_from_slice(field)` -/
def put (out : Bytes) (offset : Nat) (field : Bytes) : Bytes :=
  out.take offset ++ field ++ out.drop (offset + field.length)

def u32Bytes (value : UInt32) : Bytes := toLe 4 value.toNat

def u64Bytes (value : UInt64) : Bytes := toLe 8 value.toNat

/-- The fields of a loop over offsets and values. -/
def putAll (out : Bytes) (fields : List (Nat × Bytes)) : Bytes :=
  fields.foldl (fun out field => put out field.1 field.2) out

@[simp] theorem length_u32Bytes (value : UInt32) : (u32Bytes value).length = 4 := length_toLe ..

@[simp] theorem length_u64Bytes (value : UInt64) : (u64Bytes value).length = 8 := length_toLe ..

/-- A field that is written into the zeros behind what was written before. -/
theorem put_zeros {front field : Bytes} {offset zeros : Nat} (gap rest : Nat)
    (hoffset : offset = front.length + gap) (hzeros : zeros = gap + field.length + rest) :
    put (front ++ List.replicate zeros 0) offset field =
      (front ++ (List.replicate gap 0 ++ field)) ++ List.replicate rest 0 := by
  have hsplit : front ++ List.replicate zeros (0 : UInt8) =
      (front ++ List.replicate gap 0) ++ (List.replicate (field.length + rest) 0) := by
    simp [hzeros, Nat.add_assoc]
  have hlen : (front ++ List.replicate gap (0 : UInt8)).length = offset := by simp [hoffset]
  rw [put, hsplit, List.take_left' hlen, ← List.drop_drop, List.drop_left' hlen, List.drop_replicate]
  simp

def u32At (bytes : Bytes) (offset : Nat) : UInt32 := UInt32.ofNat (leAt 4 bytes offset)

def u64At (bytes : Bytes) (offset : Nat) : UInt64 := UInt64.ofNat (leAt 8 bytes offset)

theorem u32At_eq_iff {bytes : Bytes} {offset : Nat} {value : UInt32} :
    u32At bytes offset = value ↔ leAt 4 bytes offset = value.toNat := by
  have hlt : leAt 4 bytes offset < 2 ^ 32 := leAt_lt 4 bytes offset
  rw [u32At, ← UInt32.toNat_inj, UInt32.toNat_ofNat', Nat.mod_eq_of_lt hlt]

theorem u64At_eq_iff {bytes : Bytes} {offset : Nat} {value : UInt64} :
    u64At bytes offset = value ↔ leAt 8 bytes offset = value.toNat := by
  have hlt : leAt 8 bytes offset < 2 ^ 64 := leAt_lt 8 bytes offset
  rw [u64At, ← UInt64.toNat_inj, UInt64.toNat_ofNat', Nat.mod_eq_of_lt hlt]

/-! ### Steps that may refuse -/

section Refusals

variable {ε α β : Type} {c : Prop} [Decidable c] {e : ε} {a : α} {b : β}

theorem unless_eq_ok {p : Except ε α} : (if c then throw e else p) = .ok a ↔ ¬ c ∧ p = .ok a := by
  by_cases h : c
  · simp [h, throw, throwThe, MonadExceptOf.throw]
  · simp [h]

theorem pure_eq_ok {a' : α} : (pure a : Except ε α) = .ok a' ↔ a = a' :=
  ⟨Except.ok.inj, congrArg Except.ok⟩

theorem throw_eq_ok : (throw e : Except ε α) = .ok a ↔ False := ⟨nofun, False.elim⟩

theorem bind_eq_ok {p : Except ε α} {f : α → Except ε β} :
    p >>= f = .ok b ↔ ∃ a, p = .ok a ∧ f a = .ok b := by
  cases p with
  | ok a => exact ⟨fun h => ⟨a, rfl, h⟩, fun ⟨_, ha, hb⟩ => Except.ok.inj ha ▸ hb⟩
  | error e => exact ⟨nofun, fun ⟨_, ha, _⟩ => nomatch ha⟩

end Refusals

namespace Proto

def ptimLen : Nat := 56
def ptimValid : UInt32 := 1

inductive KernelError
  | noDevice
  | unsupported
  | acquisitionErrno (errno : UInt16)
  deriving DecidableEq

inductive Error
  | length (expected actual : Nat)
  | version (version : UInt32)
  | flags (flags : UInt32)
  | invalidStatus (status : Int32)
  | failurePayload
  | kernel (error : KernelError)
  deriving DecidableEq

def exact (bytes : Bytes) (expected : Nat) : Except Error Unit :=
  if bytes.length ≠ expected then throw (.length expected bytes.length) else pure ()

end Proto

open Proto in
@[ext] structure PtimSampleV1 where
  sequence : UInt64
  startedNs : UInt64
  acquiredNs : UInt64
  voltage01mv : Int32
  current01ma : Int32
  rFgValue : Int32
  carTuneValue : Int32
  deriving DecidableEq

namespace PtimSampleV1

open Proto

def encode (sample : PtimSampleV1) : Bytes :=
  let out := List.replicate ptimLen 0
  let out := put out 0 (u32Bytes 1)
  let out := put out 4 (u32Bytes (UInt32.ofNat ptimLen))
  let out := put out 12 (u32Bytes ptimValid)
  let out := putAll out
    [(16, u64Bytes sample.sequence), (24, u64Bytes sample.startedNs),
      (32, u64Bytes sample.acquiredNs)]
  putAll out
    [(40, u32Bytes sample.voltage01mv.toUInt32), (44, u32Bytes sample.current01ma.toUInt32),
      (48, u32Bytes sample.rFgValue.toUInt32), (52, u32Bytes sample.carTuneValue.toUInt32)]

/-- The error of a status other than zero. -/
def kernelError (status : Int32) : Except Error KernelError :=
  if status = -19 then pure .noDevice
  else if status = -95 then pure .unsupported
  else if -4095 ≤ status ∧ status ≤ -1 then
    pure (.acquisitionErrno (-status).toUInt32.toUInt16)
  else throw (.invalidStatus status)

def decode (bytes : Bytes) : Except Error PtimSampleV1 := do
  exact bytes ptimLen
  let status := (u32At bytes 8).toInt32
  let flags := u32At bytes 12
  if u32At bytes 0 ≠ 1 then throw (.version (u32At bytes 0))
  else if u32At bytes 4 ≠ UInt32.ofNat ptimLen then
    throw (.length ptimLen (u32At bytes 4).toNat)
  else if status ≠ 0 then do
    let error ← kernelError status
    if flags ≠ 0 ∨ (bytes.drop 16).any (· != 0) then throw .failurePayload
    else throw (.kernel error)
  else if flags ≠ ptimValid then throw (.flags flags)
  else
    pure
      { sequence := u64At bytes 16
        startedNs := u64At bytes 24
        acquiredNs := u64At bytes 32
        voltage01mv := (u32At bytes 40).toInt32
        current01ma := (u32At bytes 44).toInt32
        rFgValue := (u32At bytes 48).toInt32
        carTuneValue := (u32At bytes 52).toInt32 }

/-! ### Samples and their texts -/

/-- The sizes of the fields of the record. -/
def sizes : List Nat := [4, 4, 4, 4, 8, 8, 8, 4, 4, 4, 4]

def words (sample : PtimSampleV1) : List Nat :=
  [1, 56, 0, 1, sample.sequence.toNat, sample.startedNs.toNat, sample.acquiredNs.toNat,
    sample.voltage01mv.toUInt32.toNat, sample.current01ma.toUInt32.toNat,
    sample.rFgValue.toUInt32.toNat, sample.carTuneValue.toUInt32.toNat]

theorem encode_eq (sample : PtimSampleV1) : sample.encode = joinWords sizes sample.words := by
  simp only [encode, putAll, List.foldl_cons, List.foldl_nil, ptimLen]
  rw [← List.nil_append (List.replicate 56 0), put_zeros 0 52 (by simp) (by simp),
    put_zeros 0 48 (by simp) (by simp), put_zeros 4 40 (by simp) (by simp), put_zeros 0 32 (by simp) (by simp),
    put_zeros 0 24 (by simp) (by simp), put_zeros 0 16 (by simp) (by simp), put_zeros 0 12 (by simp) (by simp),
    put_zeros 0 8 (by simp) (by simp), put_zeros 0 4 (by simp) (by simp), put_zeros 0 0 (by simp) (by simp)]
  have hstatus : toLe 4 0 = List.replicate 4 0 := rfl
  simp [sizes, words, joinWords, u32Bytes, u64Bytes, hstatus, ptimValid]

theorem fit_words (sample : PtimSampleV1) : Fit sizes sample.words := by
  simp only [Fit, sizes, words, List.forall₂_cons]
  refine ⟨by decide, by decide, by decide, by decide, ?_, ?_, ?_, ?_, ?_, ?_, ?_, .nil⟩
  · exact sample.sequence.toNat_lt
  · exact sample.startedNs.toNat_lt
  · exact sample.acquiredNs.toNat_lt
  · exact sample.voltage01mv.toUInt32.toNat_lt
  · exact sample.current01ma.toUInt32.toNat_lt
  · exact sample.rFgValue.toUInt32.toNat_lt
  · exact sample.carTuneValue.toUInt32.toNat_lt

/-- What a text that is accepted holds. -/
theorem decode_eq_ok {bytes : Bytes} {sample : PtimSampleV1} :
    decode bytes = .ok sample ↔ bytes.length = 56 ∧ u32At bytes 0 = 1 ∧ u32At bytes 4 = 56 ∧
      (u32At bytes 8).toInt32 = 0 ∧ u32At bytes 12 = 1 ∧
      { sequence := u64At bytes 16
        startedNs := u64At bytes 24
        acquiredNs := u64At bytes 32
        voltage01mv := (u32At bytes 40).toInt32
        current01ma := (u32At bytes 44).toInt32
        rFgValue := (u32At bytes 48).toInt32
        carTuneValue := (u32At bytes 52).toInt32 } = sample := by
  by_cases hstatus : (u32At bytes 8).toInt32 = 0
  · simp only [decode, exact, bind_eq_ok, unless_eq_ok, hstatus, ne_eq, not_true_eq_false, if_false,
      pure_eq_ok]
    simp [ptimLen, ptimValid]
  · -- a status of its own is an error, whatever stands behind it
    simp only [decode, exact, bind_eq_ok, unless_eq_ok, hstatus, ne_eq, not_false_eq_true, if_true,
      throw_eq_ok]
    simp

theorem toInt32_eq_iff (value : UInt32) (n : Int32) : value.toInt32 = n ↔ value = n.toUInt32 := by
  constructor
  · rintro rfl
    rfl
  · rintro rfl
    rfl

/-- **A text is accepted when it is the encoding of its sample.** -/
theorem decode_eq_ok_iff {bytes : Bytes} {sample : PtimSampleV1} :
    decode bytes = .ok sample ↔ bytes = sample.encode := by
  rw [decode_eq_ok, encode_eq, eq_joinWords_iff (fit_words sample)]
  simp only [sizes, words, wordsAt, List.drop_drop, leAt_drop, List.cons.injEq, and_true,
    PtimSampleV1.ext_iff, toInt32_eq_iff, u32At_eq_iff, u64At_eq_iff]
  exact Iff.rfl

end PtimSampleV1

end Mindone.Gauge
