import Mindone.Lib.Crc

/-!
# Mindone.Fingerprint.LockoutRecord

The records of the lockout store (`bridges/fingerprint/LockoutStore.h`): 32 bytes with a magic
number, the user, the counters, the deadline and a CRC-32 over the first 28 bytes.

`decode` reads back what `encode` wrote (`decode_encode`), for its own user only, and **rejects every
record that differs from an accepted one within 32 consecutive bits** (`decode_burst`): the
checksum of an accepted record brings the register to the same value whatever the record is, and
such a change does not.
-/

namespace Mindone.Fingerprint

open Mindone.Lib

abbrev Byte := BitVec 8

/-- `std::array<uint8_t, 32>` -/
structure Record where
  bytes : List Byte
  size : bytes.length = 32
  deriving DecidableEq

namespace Record

def zero : Record := ⟨List.replicate 32 0, rfl⟩

theorem eq_of_bytes {record record' : Record} (h : record.bytes = record'.bytes) :
    record = record' := by
  cases record
  cases record'
  cases h
  rfl

/-- `record[i]` -/
def byte (record : Record) (i : Nat) : Byte := record.bytes.getD i 0

/-- `record[i] = b` -/
def set (record : Record) (i : Nat) (b : Byte) : Record :=
  ⟨record.bytes.set i b, List.length_set.trans record.size⟩

end Record

/-- `LockoutStore::State` -/
structure State where
  failed : BitVec 32
  failedTimed : BitVec 32
  deadlineMs : BitVec 64
  deriving DecidableEq

def State.empty : State := ⟨0, 0, 0⟩

def kMagic : BitVec 64 := 0x314c5046
def kMarkerMagic : BitVec 64 := 0x314d5046
def kPendingMagic : BitVec 64 := 0x31575046

/-- One turn of the inner loop of `crc`. -/
def crcBit (value : BitVec 32) : BitVec 32 :=
  (value >>> 1) ^^^ (0xedb88320#32 &&& (0#32 - (value &&& 1#32)))

/-- One turn of the outer loop. -/
def crcByte (value : BitVec 32) (b : Byte) : BitVec 32 :=
  crcBit^[8] (value ^^^ b.setWidth 32)

/-- `crc` -/
def crc (record : Record) : BitVec 32 :=
  ~~~ (record.bytes.take 28).foldl crcByte 0xffffffff#32

/-- `put` -/
def Record.put (record : Record) (offset : Nat) (value : BitVec 64) (size : Nat) : Record :=
  (List.range size).foldl (fun record i => record.set (offset + i) ((value >>> (8 * i)).setWidth 8))
    record

/-- `get` -/
def Record.get (record : Record) (offset size : Nat) : BitVec 64 :=
  (List.range size).foldl
    (fun value i => value ||| ((record.byte (offset + i)).setWidth 64 <<< (8 * i))) 0

open Record (get put)

section Codec

variable (userId : BitVec 32)

/-- `encode` -/
def encode (state : State) (magic : BitVec 64) : Record :=
  let record := put Record.zero 0 magic 4
  let record := put record 4 1 4
  let record := put record 8 (userId.signExtend 64) 4
  let record := put record 12 (state.failed.setWidth 64) 4
  let record := put record 16 (state.failedTimed.setWidth 64) 4
  let record := put record 20 state.deadlineMs 8
  put record 28 ((crc record).setWidth 64) 4

/-- `decode` -/
def decode (record : Record) : Option State :=
  if get record 0 4 ≠ kMagic ∨ get record 4 4 ≠ 1 ∨ get record 8 4 ≠ userId.setWidth 64 ∨
      get record 28 4 ≠ (crc record).setWidth 64 then
    none
  else
    let failed := (get record 12 4).setWidth 32
    let failedTimed := (get record 16 4).setWidth 32
    let deadline := get record 20 8
    if failed.toNat > 20 ∨ failedTimed.toNat > 5 ∨ failedTimed.toNat > failed.toNat ∨
        deadline.toNat > 0x7fffffffffffffff ∨
        (deadline ≠ 0 ∧ (failedTimed ≠ 5 ∨ failed.toNat ≥ 20)) ∨
        (deadline = 0 ∧ failedTimed.toNat ≥ 5) then
      none
    else some ⟨failed, failedTimed, deadline⟩

end Codec

/-- What `decode` asks of a state. -/
structure State.Allowed (s : State) : Prop where
  failed : s.failed.toNat ≤ 20
  failedTimed : s.failedTimed.toNat ≤ 5
  order : s.failedTimed.toNat ≤ s.failed.toNat
  deadline : s.deadlineMs.toNat ≤ 0x7fffffffffffffff
  timed : s.deadlineMs ≠ 0 → s.failedTimed = 5 ∧ s.failed.toNat < 20
  untimed : s.deadlineMs = 0 → s.failedTimed.toNat < 5

theorem State.empty_allowed : State.empty.Allowed :=
  ⟨by decide, by decide, by decide, by decide, nofun, by decide⟩

/-! ### Bytes and words -/

section Words

variable {record : Record}

theorem byte_set (i j : Nat) (b : Byte) (hi : i < 32) :
    (record.set i b).byte j = if i = j then b else record.byte j := by
  unfold Record.byte Record.set
  dsimp only
  by_cases hij : i = j
  · subst hij
    rw [if_pos rfl, List.getD_eq_getElem _ _ (by rw [List.length_set, record.size]; exact hi)]
    exact List.getElem_set_self _
  · rw [if_neg hij]
    rcases Nat.lt_or_ge j 32 with hj | hj
    · rw [List.getD_eq_getElem _ _ (by rw [List.length_set, record.size]; exact hj),
        List.getD_eq_getElem _ _ (by rw [record.size]; exact hj)]
      exact List.getElem_set_ne hij _
    · rw [List.getD_eq_default _ _ (by rw [List.length_set, record.size]; exact hj),
        List.getD_eq_default _ _ (by rw [record.size]; exact hj)]

/-- The bytes that `put` writes are the value's, and the other ones stay. -/
theorem byte_put {offset size : Nat} (hsize : offset + size ≤ 32) (value : BitVec 64) (j : Nat) :
    (put record offset value size).byte j =
      if offset ≤ j ∧ j < offset + size then (value >>> (8 * (j - offset))).setWidth 8
      else record.byte j := by
  unfold Record.put
  induction size with
  | zero =>
      rw [if_neg (by omega)]
      rfl
  | succ n ih =>
      rw [List.range_succ, List.foldl_append, List.foldl_cons, List.foldl_nil,
        byte_set _ _ _ (by omega), ih (by omega)]
      by_cases hj : offset + n = j
      · subst hj
        rw [if_pos rfl, if_pos (by omega), Nat.add_sub_cancel_left]
      · rw [if_neg hj]
        by_cases hin : offset ≤ j ∧ j < offset + n
        · rw [if_pos hin, if_pos (by omega)]
        · rw [if_neg hin, if_neg (by omega)]

/-- The bits that `get` reads. -/
theorem getLsbD_get (offset size j : Nat) (hsize : size ≤ 8) :
    (get record offset size).getLsbD j =
      (decide (j < 8 * size) && (record.byte (offset + j / 8)).getLsbD (j % 8)) := by
  unfold Record.get
  induction size with
  | zero => simp
  | succ n ih =>
      rw [List.range_succ, List.foldl_append, List.foldl_cons, List.foldl_nil, BitVec.getLsbD_or,
        ih (by omega), BitVec.getLsbD_shiftLeft, BitVec.getLsbD_setWidth]
      rcases Nat.lt_trichotomy (j / 8) n with hlt | heq | hgt
      · rw [decide_eq_true (by omega : j < 8 * n), decide_eq_true (by omega : j < 8 * (n + 1))]
        simp
      · rw [decide_eq_false (by omega : ¬ j < 8 * n), decide_eq_true (by omega : j < 8 * (n + 1)),
          decide_eq_true (by omega : j < 64), decide_eq_true (by omega : j - 8 * n < 64), heq,
          (by omega : j - 8 * n = j % 8)]
        simp
      · rw [decide_eq_false (by omega : ¬ j < 8 * n),
          decide_eq_false (by omega : ¬ j < 8 * (n + 1)),
          BitVec.getLsbD_of_ge (record.byte (offset + n)) (j - 8 * n) (by omega)]
        simp

/-- **A word that was put is read back**, if it fits. -/
theorem get_put {offset size : Nat} (hfit : offset + size ≤ 32) (hsize : size ≤ 8)
    {value : BitVec 64} (hvalue : ∀ j, 8 * size ≤ j → value.getLsbD j = false) :
    get (put record offset value size) offset size = value := by
  apply BitVec.eq_of_getLsbD_eq
  intro j _
  rw [getLsbD_get _ _ _ hsize, byte_put hfit]
  by_cases hin : j < 8 * size
  · rw [decide_eq_true hin, if_pos (by omega), BitVec.getLsbD_setWidth, BitVec.getLsbD_ushiftRight,
      decide_eq_true (by omega : j % 8 < 8), (by omega : 8 * (offset + j / 8 - offset) + j % 8 = j)]
    simp
  · rw [decide_eq_false hin, hvalue j (by omega)]
    simp

/-- Other words stay. -/
theorem get_put_other {offset size offset' size' : Nat} (hfit : offset + size ≤ 32)
    (hsize' : size' ≤ 8) (hdisjoint : offset' + size' ≤ offset ∨ offset + size ≤ offset')
    (value : BitVec 64) :
    get (put record offset value size) offset' size' = get record offset' size' := by
  apply BitVec.eq_of_getLsbD_eq
  intro j _
  rw [getLsbD_get _ _ _ hsize', getLsbD_get _ _ _ hsize', byte_put hfit]
  by_cases hin : j < 8 * size'
  · rw [if_neg (by omega)]
  · rw [decide_eq_false hin, Bool.false_and, Bool.false_and]

/-- A record is its bytes. -/
theorem Record.ext_byte {r r' : Record} (h : ∀ i, i < 32 → r.byte i = r'.byte i) : r = r' := by
  obtain ⟨bs, hbs⟩ := r
  obtain ⟨bs', hbs'⟩ := r'
  congr 1
  refine List.ext_getElem (hbs.trans hbs'.symm) fun i hi hi' => ?_
  have := h i (hbs ▸ hi)
  unfold Record.byte at this
  rwa [List.getD_eq_getElem _ _ hi, List.getD_eq_getElem _ _ hi'] at this

/-- What is put behind the first bytes does not change them. -/
theorem take_put {offset size n : Nat} (hfit : offset + size ≤ 32) (hn : n ≤ offset)
    (value : BitVec 64) :
    (put record offset value size).bytes.take n = record.bytes.take n := by
  have hlen : ∀ r : Record, (r.bytes.take n).length = n := by
    intro r
    rw [List.length_take, r.size]
    omega
  refine List.ext_getElem (by rw [hlen, hlen]) fun i hi hi' => ?_
  rw [hlen] at hi
  have hbyte := @byte_put record _ _ hfit value i
  rw [if_neg (by omega)] at hbyte
  unfold Record.byte at hbyte
  rw [List.getD_eq_getElem _ _ (by rw [Record.size]; omega),
    List.getD_eq_getElem _ _ (by rw [Record.size]; omega)] at hbyte
  rw [List.getElem_take, List.getElem_take]
  exact hbyte

end Words

/-! ### Round trip -/

section RoundTrip

variable {userId : BitVec 32}

/-- The record before its checksum. -/
def encodeBody (userId : BitVec 32) (state : State) (magic : BitVec 64) : Record :=
  let record := put Record.zero 0 magic 4
  let record := put record 4 1 4
  let record := put record 8 (userId.signExtend 64) 4
  let record := put record 12 (state.failed.setWidth 64) 4
  let record := put record 16 (state.failedTimed.setWidth 64) 4
  put record 20 state.deadlineMs 8

theorem encode_eq (state : State) (magic : BitVec 64) : encode userId state magic =
    put (encodeBody userId state magic) 28 ((crc (encodeBody userId state magic)).setWidth 64) 4 :=
  rfl

/-- A word of 32 bits fits into four bytes. -/
theorem fits_setWidth (v : BitVec 32) (j : Nat) (hj : 8 * 4 ≤ j) :
    (v.setWidth 64).getLsbD j = false := by
  rw [BitVec.getLsbD_setWidth, BitVec.getLsbD_of_ge v j (by omega), Bool.and_false]

/-- The checksum does not depend on the bytes where it is kept. -/
theorem crc_encode (state : State) (magic : BitVec 64) :
    crc (encode userId state magic) = crc (encodeBody userId state magic) := by
  rw [encode_eq]
  unfold crc
  rw [take_put (by decide) (by decide)]

theorem get_encode_crc (state : State) (magic : BitVec 64) :
    get (encode userId state magic) 28 4 = (crc (encode userId state magic)).setWidth 64 := by
  rw [crc_encode, encode_eq]
  exact get_put (by decide) (by decide) (fits_setWidth _)

theorem get_encode_magic (state : State) {magic : BitVec 64}
    (hmagic : ∀ j, 8 * 4 ≤ j → magic.getLsbD j = false) :
    get (encode userId state magic) 0 4 = magic := by
  rw [encode_eq, get_put_other (by decide) (by decide) (by decide)]
  unfold encodeBody
  dsimp only
  iterate 5 rw [get_put_other (by decide) (by decide) (by decide)]
  exact get_put (by decide) (by decide) hmagic

theorem get_encode_version (state : State) (magic : BitVec 64) :
    get (encode userId state magic) 4 4 = 1 := by
  rw [encode_eq, get_put_other (by decide) (by decide) (by decide)]
  unfold encodeBody
  dsimp only
  iterate 4 rw [get_put_other (by decide) (by decide) (by decide)]
  exact get_put (by decide) (by decide) (fits_setWidth 1)

theorem get_encode_user (state : State) (magic : BitVec 64) :
    get (encode userId state magic) 8 4 = userId.setWidth 64 := by
  rw [encode_eq, get_put_other (by decide) (by decide) (by decide)]
  unfold encodeBody
  dsimp only
  iterate 3 rw [get_put_other (by decide) (by decide) (by decide)]
  -- the sign is not in the four bytes
  apply BitVec.eq_of_getLsbD_eq
  intro j hj
  rw [getLsbD_get _ _ _ (by decide), byte_put (by decide), BitVec.getLsbD_setWidth,
    decide_eq_true hj, Bool.true_and]
  by_cases hin : j < 8 * 4
  · rw [decide_eq_true hin, if_pos (by omega), BitVec.getLsbD_setWidth, BitVec.getLsbD_ushiftRight,
      decide_eq_true (by omega : j % 8 < 8), (by omega : 8 * (8 + j / 8 - 8) + j % 8 = j),
      BitVec.getLsbD_signExtend, decide_eq_true hj, if_pos (by omega)]
    simp
  · rw [decide_eq_false hin, BitVec.getLsbD_of_ge userId j (by omega)]
    simp

theorem get_encode_failed (state : State) (magic : BitVec 64) :
    get (encode userId state magic) 12 4 = state.failed.setWidth 64 := by
  rw [encode_eq, get_put_other (by decide) (by decide) (by decide)]
  unfold encodeBody
  dsimp only
  iterate 2 rw [get_put_other (by decide) (by decide) (by decide)]
  exact get_put (by decide) (by decide) (fits_setWidth _)

theorem get_encode_failedTimed (state : State) (magic : BitVec 64) :
    get (encode userId state magic) 16 4 = state.failedTimed.setWidth 64 := by
  rw [encode_eq, get_put_other (by decide) (by decide) (by decide)]
  unfold encodeBody
  dsimp only
  rw [get_put_other (by decide) (by decide) (by decide)]
  exact get_put (by decide) (by decide) (fits_setWidth _)

theorem get_encode_deadline (state : State) (magic : BitVec 64) :
    get (encode userId state magic) 20 8 = state.deadlineMs := by
  rw [encode_eq, get_put_other (by decide) (by decide) (by decide)]
  exact get_put (by decide) (by decide) fun j hj => BitVec.getLsbD_of_ge _ _ hj

/-- **A record that was encoded is decoded for its user**, if the state is one that `decode`
allows, and else it is not. -/
theorem decode_encode_iff {state s : State} :
    decode userId (encode userId state kMagic) = some s ↔ state.Allowed ∧ s = state := by
  have hkept : ∀ v : BitVec 32, (v.setWidth 64).setWidth 32 = v := by
    intro v
    rw [BitVec.setWidth_setWidth_of_le v (by decide), BitVec.setWidth_eq]
  have hmagic : get (encode userId state kMagic) 0 4 = kMagic :=
    get_encode_magic state (fun j hj => fits_setWidth 0x314c5046 j hj)
  unfold decode
  rw [hmagic, get_encode_version, get_encode_user, get_encode_crc, get_encode_failed,
    get_encode_failedTimed, get_encode_deadline, hkept, hkept, if_neg (by simp)]
  dsimp only
  split
  · rename_i hbad
    refine ⟨nofun, ?_⟩
    rintro ⟨⟨hfailed, htimed, horder, hdeadline, hset, hclear⟩, -⟩
    exfalso
    rcases hbad with h | h | h | h | ⟨hne, h | h⟩ | ⟨heq, h⟩
    · omega
    · omega
    · omega
    · omega
    · exact h (hset hne).1
    · have := (hset hne).2
      omega
    · have := hclear heq
      omega
  · rename_i hgood
    simp only [not_or, not_and, Nat.not_lt, Nat.not_le, ge_iff_le, gt_iff_lt, ne_eq, not_not] at hgood
    obtain ⟨hfailed, htimed, horder, hdeadline, hset, hclear⟩ := hgood
    constructor
    · intro heq
      exact ⟨⟨hfailed, htimed, horder, hdeadline, hset, hclear⟩, (Option.some.inj heq).symm⟩
    · rintro ⟨-, rfl⟩
      rfl

theorem decode_encode {s : State} (h : s.Allowed) :
    decode userId (encode userId s kMagic) = some s := decode_encode_iff.mpr ⟨h, rfl⟩

/-- What is decoded is allowed. -/
theorem decode_allowed {record : Record} {s : State} (h : decode userId record = some s) :
    s.Allowed := by
  unfold decode at h
  split at h
  · cases h
  dsimp only at h
  split at h
  · cases h
  · rename_i hgood
    simp only [not_or, not_and, Nat.not_lt, Nat.not_le, ge_iff_le, gt_iff_lt, ne_eq, not_not] at hgood
    obtain ⟨hfailed, htimed, horder, hdeadline, hset, hclear⟩ := hgood
    cases h
    exact ⟨hfailed, htimed, horder, hdeadline, hset, hclear⟩

/-- The parts of a record that the user and the checksum are in. -/
theorem decode_some {record : Record} {s : State} (h : decode userId record = some s) :
    get record 8 4 = userId.setWidth 64 ∧ get record 28 4 = (crc record).setWidth 64 := by
  unfold decode at h
  split at h
  · cases h
  · rename_i hgood
    simp only [not_or, ne_eq, not_not] at hgood
    exact ⟨hgood.2.2.1, hgood.2.2.2⟩

/-- **A record of another user is rejected.** -/
theorem decode_other {other : BitVec 32} (hother : other ≠ userId) {record : Record} {s : State}
    (h : decode other record = some s) : decode userId record = none := by
  cases hdecode : decode userId record with
  | none => rfl
  | some s' =>
      have heq := (decode_some h).1.symm.trans (decode_some hdecode).1
      refine absurd ?_ hother
      have := congrArg (BitVec.setWidth 32) heq
      rwa [BitVec.setWidth_setWidth_of_le _ (by decide), BitVec.setWidth_setWidth_of_le _ (by decide),
        BitVec.setWidth_eq, BitVec.setWidth_eq] at this

end RoundTrip

/-! ### Changed records -/

/-- The polynomial of `crc`. -/
def poly : BitVec 32 := 0xedb88320#32

/-- The bits of a byte, the least significant one first. -/
def byteBits (b : Byte) : List Bool := (List.range 8).map b.getLsbD

/-- The bits of a record. -/
def Record.bits (record : Record) : List Bool := record.bytes.flatMap byteBits

theorem crcBit_eq (value : BitVec 32) : crcBit value = Crc.shift poly value := by
  have hlow := BitVec.and_one_eq_setWidth_ofBool_getLsbD (x := value)
  unfold crcBit Crc.shift
  rw [hlow]
  congr 1
  cases value.getLsbD 0 with
  | true => decide
  | false => decide

theorem getD_byteBits (b : Byte) (i : Nat) : (byteBits b).getD i false = b.getLsbD i := by
  unfold byteBits
  rcases Nat.lt_or_ge i 8 with hi | hi
  · rw [List.getD_eq_getElem _ _ (by simpa using hi), List.getElem_map, List.getElem_range]
  · rw [List.getD_eq_default _ _ (by simpa using hi), BitVec.getLsbD_of_ge b i hi]

theorem length_byteBits (b : Byte) : (byteBits b).length = 8 := by
  unfold byteBits
  rw [List.length_map, List.length_range]

theorem crcByte_eq (value : BitVec 32) (b : Byte) :
    crcByte value b = Crc.feedAll poly value (byteBits b) := by
  have hpack : Crc.pack 32 (byteBits b) = b.setWidth 32 := by
    apply BitVec.eq_of_getLsbD_eq
    intro i hi
    rw [Crc.getLsbD_pack _ hi, getD_byteBits, BitVec.getLsbD_setWidth, decide_eq_true hi,
      Bool.true_and]
  have hstep : crcBit = Crc.shift poly := funext crcBit_eq
  unfold crcByte
  rw [Crc.feedAll_eq (by rw [length_byteBits]; decide), length_byteBits, hpack, hstep]

theorem foldl_crcByte (bytes : List Byte) (value : BitVec 32) :
    bytes.foldl crcByte value = Crc.feedAll poly value (bytes.flatMap byteBits) := by
  induction bytes generalizing value with
  | nil => rfl
  | cons b bytes ih =>
      rw [List.foldl_cons, ih, List.flatMap_cons, Crc.feedAll_append, crcByte_eq]

theorem length_bits (bytes : List Byte) : (bytes.flatMap byteBits).length = 8 * bytes.length := by
  induction bytes with
  | nil => rfl
  | cons b bytes ih =>
      rw [List.flatMap_cons, List.length_append, ih, length_byteBits, List.length_cons]
      omega

theorem getD_bits (bytes : List Byte) (i : Nat) :
    (bytes.flatMap byteBits).getD i false = (bytes.getD (i / 8) 0).getLsbD (i % 8) := by
  induction bytes generalizing i with
  | nil =>
      rw [List.flatMap_nil, List.getD_nil, List.getD_nil]
      exact (BitVec.getLsbD_zero ..).symm
  | cons b bytes ih =>
      rw [List.flatMap_cons]
      rcases Nat.lt_or_ge i 8 with hi | hi
      · rw [List.getD_append _ _ _ _ (by rw [length_byteBits]; exact hi), getD_byteBits,
          (by omega : i / 8 = 0), Nat.mod_eq_of_lt hi]
        rfl
      · rw [List.getD_append_right _ _ _ _ (by rw [length_byteBits]; exact hi), length_byteBits, ih,
          (by omega : i / 8 = (i - 8) / 8 + 1), (by omega : (i - 8) % 8 = i % 8)]
        rfl

/-- The checksum as it is kept, and the bits it is kept in. -/
theorem pack_checksum (record : Record) :
    Crc.pack 32 ((record.bytes.drop 28).flatMap byteBits) = (get record 28 4).setWidth 32 := by
  apply BitVec.eq_of_getLsbD_eq
  intro i hi
  have hdrop : (record.bytes.drop 28).getD (i / 8) 0 = record.byte (28 + i / 8) := by
    unfold Record.byte
    rw [List.getD_eq_getElem _ _ (by rw [List.length_drop, record.size]; omega),
      List.getD_eq_getElem _ _ (by rw [record.size]; omega), List.getElem_drop]
  rw [Crc.getLsbD_pack _ hi, getD_bits, hdrop, BitVec.getLsbD_setWidth, decide_eq_true hi,
    Bool.true_and, getLsbD_get _ _ _ (by decide), decide_eq_true (by omega : i < 8 * 4),
    Bool.true_and]

/-- **Behind the whole of an accepted record the register is the same for all of them.** -/
theorem feedAll_accepted {record : Record} (h : get record 28 4 = (crc record).setWidth 64) :
    Crc.feedAll poly 0xffffffff#32 record.bits = (Crc.shift poly)^[32] 0xffffffff#32 := by
  have hsplit : record.bits =
      (record.bytes.take 28).flatMap byteBits ++ (record.bytes.drop 28).flatMap byteBits := by
    unfold Record.bits
    rw [← List.flatMap_append, List.take_append_drop]
  have hlen : ((record.bytes.drop 28).flatMap byteBits).length = 32 := by
    rw [length_bits, List.length_drop, record.size]
  have hkept : (get record 28 4).setWidth 32 = crc record := by
    rw [h, BitVec.setWidth_setWidth_of_le _ (by decide), BitVec.setWidth_eq]
  have hones : ∀ v : BitVec 32, v ^^^ ~~~v = 0xffffffff#32 := by
    intro v
    apply BitVec.eq_of_getLsbD_eq
    intro i hi
    rw [BitVec.getLsbD_xor, BitVec.getLsbD_not, decide_eq_true hi, Bool.true_and, Bool.xor_not_self]
    exact (BitVec.getLsbD_allOnes ▸ (decide_eq_true hi).symm : true = (BitVec.allOnes 32).getLsbD i)
  rw [hsplit, Crc.feedAll_append, Crc.feedAll_eq (by omega), hlen, pack_checksum, hkept]
  unfold crc
  rw [foldl_crcByte, hones]

/-- Two records are equal when their bits are. -/
theorem Record.ext_bits {r r' : Record} (h : r.bits = r'.bits) : r = r' := by
  refine Record.ext_byte fun i hi => BitVec.eq_of_getLsbD_eq fun j hj => ?_
  have hbit := congrArg (fun bs => bs.getD (8 * i + j) false) h
  unfold Record.bits at hbit
  rw [getD_bits, getD_bits, (by omega : (8 * i + j) / 8 = i), (by omega : (8 * i + j) % 8 = j)]
    at hbit
  exact hbit

/-- **A record that was changed within 32 consecutive bits is rejected**, wherever the bits are and
whatever the change. -/
theorem decode_burst {userId : BitVec 32} {r r' : Record} {s : State}
    (h : decode userId r = some s) (hne : r' ≠ r) {i : Nat}
    (hwindow : ∀ k, k < i ∨ i + 32 ≤ k → r'.bits.getD k false = r.bits.getD k false) :
    decode userId r' = none := by
  cases hdecode : decode userId r' with
  | none => rfl
  | some s' =>
      have hlen : r'.bits.length = r.bits.length := by
        unfold Record.bits
        rw [length_bits, length_bits, r.size, r'.size]
      refine absurd ?_ (@Crc.feedAll_ne_of_burst _ poly (by decide) _ _ hlen
        (fun hbits => hne (Record.ext_bits hbits)) i hwindow 0xffffffff#32)
      rw [feedAll_accepted (decode_some h).2, feedAll_accepted (decode_some hdecode).2]

end Mindone.Fingerprint
