import Mindone.Lib.Crc
import Mindone.Lib.LittleEndian

/-!
# Mindone.Lib.Checksum

Texts of bytes with a cyclic redundancy check behind them, the register's low byte first. The
register starts with all bits set and is complemented at the end. **The bits of a sealed text bring
the register to the same value whatever the text is** (`feedAll_sealed`), so two sealed texts of one
length never differ within as many consecutive bits as the register has (`sealed_eq_of_burst`).
-/

namespace Mindone.Lib

/-! ### The bits of a text -/

/-- The bits of a byte, the least significant one first. -/
def byteBits (b : UInt8) : List Bool := (List.range 8).map b.toBitVec.getLsbD

/-- The bits of a text. -/
def textBits (bytes : List UInt8) : List Bool := bytes.flatMap byteBits

@[simp] theorem length_byteBits (b : UInt8) : (byteBits b).length = 8 := by simp [byteBits]

@[simp] theorem textBits_append (front rest : List UInt8) :
    textBits (front ++ rest) = textBits front ++ textBits rest := List.flatMap_append

@[simp] theorem length_textBits (bytes : List UInt8) : (textBits bytes).length = 8 * bytes.length := by
  induction bytes with
  | nil => rfl
  | cons b bytes ih =>
      have hcons : textBits (b :: bytes) = byteBits b ++ textBits bytes := rfl
      rw [hcons, List.length_append, ih, length_byteBits, List.length_cons]
      omega

theorem getD_byteBits (b : UInt8) (i : Nat) : (byteBits b).getD i false = b.toNat.testBit i := by
  rcases Nat.lt_or_ge i 8 with hi | hi
  · rw [List.getD_eq_getElem _ _ (by simpa using hi)]
    simp [byteBits, BitVec.getLsbD]
  · have hlt : b.toNat < 2 ^ i := Nat.lt_of_lt_of_le b.toNat_lt (Nat.pow_le_pow_right (by omega) hi)
    rw [List.getD_eq_default _ _ (by simpa using hi), Nat.testBit_lt_two_pow hlt]

/-- The bits of a text are those of the number it holds. -/
theorem getD_textBits (bytes : List UInt8) (i : Nat) :
    (textBits bytes).getD i false = (ofLe bytes).testBit i := by
  induction bytes generalizing i with
  | nil => simp [textBits]
  | cons b bytes ih =>
      have hcons : textBits (b :: bytes) = byteBits b ++ textBits bytes := rfl
      have hsum : b.toNat + 0x100 * ofLe bytes = 2 ^ 8 * ofLe bytes + b.toNat := Nat.add_comm _ _
      rw [hcons, ofLe_cons, hsum, Nat.testBit_two_pow_mul_add _ b.toNat_lt]
      split
      next hi => rw [List.getD_append _ _ _ _ (by simpa using hi), getD_byteBits]
      next hi =>
        rw [List.getD_append_right _ _ _ _ (by simpa using hi), length_byteBits, ih]

/-- Texts of one length are equal when their bits are. -/
theorem eq_of_textBits {bytes bytes' : List UInt8} (hlen : bytes.length = bytes'.length)
    (h : textBits bytes = textBits bytes') : bytes = bytes' := by
  have hnumber : ofLe bytes = ofLe bytes' := by
    refine Nat.eq_of_testBit_eq fun i => ?_
    rw [← getD_textBits, ← getD_textBits, h]
  rw [← toLe_ofLe bytes, ← toLe_ofLe bytes', hnumber, hlen]

/-! ### Sealed texts -/

section Seal

variable {w n : Nat} (poly : BitVec w)

/-- The checksum of a text. -/
def checksum (bytes : List UInt8) : BitVec w :=
  ~~~ Crc.feedAll poly (BitVec.allOnes w) (textBits bytes)

/-- A text with its checksum behind it, in `n` bytes. -/
def sealed (n : Nat) (bytes : List UInt8) : List UInt8 := bytes ++ toLe n (checksum poly bytes).toNat

theorem xor_not_self (v : BitVec w) : v ^^^ ~~~ v = BitVec.allOnes w := by
  apply BitVec.eq_of_getLsbD_eq
  intro i hi
  simp [hi]

/-- The bits of a checksum, packed again. -/
theorem pack_toLe (hw : w = 8 * n) (v : BitVec w) : Crc.pack w (textBits (toLe n v.toNat)) = v := by
  have hlt : v.toNat < 0x100 ^ n := by
    have hpow : (0x100 : Nat) ^ n = 2 ^ w := by rw [hw, Nat.pow_mul]
    exact hpow ▸ v.isLt
  apply BitVec.eq_of_getLsbD_eq
  intro i hi
  rw [Crc.getLsbD_pack _ hi, getD_textBits, ofLe_toLe hlt, BitVec.getLsbD]

variable {poly}

theorem length_sealed (n : Nat) (bytes : List UInt8) : (sealed poly n bytes).length = bytes.length + n := by
  simp [sealed]

/-- A sealed text of words, as it is read back. -/
theorem eq_sealed_joinWords_iff (hw : w = 8 * n) {bytes : List UInt8} {sizes values : List Nat}
    (h : Fit sizes values) : bytes = sealed poly n (joinWords sizes values) ↔
      bytes.length = sizes.sum + n ∧ wordsAt sizes bytes = values ∧
        leAt n bytes sizes.sum = (checksum poly (bytes.take sizes.sum)).toNat := by
  have hlength := length_joinWords h
  constructor
  · rintro rfl
    have hlt : (checksum poly (joinWords sizes values)).toNat < 0x100 ^ n := by
      have hpow : (0x100 : Nat) ^ n = 2 ^ w := by rw [hw, Nat.pow_mul]
      exact hpow ▸ (checksum poly (joinWords sizes values)).isLt
    refine ⟨by rw [length_sealed, hlength], wordsAt_joinWords h _, ?_⟩
    have hread := leAt_append_toLe hlength hlt []
    rw [List.append_nil] at hread
    rw [sealed, hread, List.take_left' hlength]
  · rintro ⟨hlen, rfl, hread⟩
    have hbody := @joinWords_wordsAt bytes sizes (by omega)
    have htail := @toLe_leAt_append bytes sizes.sum n (by omega)
    rw [List.drop_of_length_le (by omega), List.append_nil] at htail
    rw [sealed, hbody, ← hread, htail, List.take_append_drop]

/-- **Behind a sealed text the register is the same for all of them.** -/
theorem feedAll_sealed (hw : w = 8 * n) (bytes : List UInt8) :
    Crc.feedAll poly (BitVec.allOnes w) (textBits (sealed poly n bytes)) =
      (Crc.shift poly)^[w] (BitVec.allOnes w) := by
  have hlen : (textBits (toLe n (checksum poly bytes).toNat)).length = w := by simp [hw]
  rw [sealed, textBits_append, Crc.feedAll_append, Crc.feedAll_eq (Nat.le_of_eq hlen), hlen,
    pack_toLe hw, checksum, xor_not_self]

/-- **Sealed texts that differ do so in bits that lie further apart** than the register is wide. -/
theorem sealed_eq_of_burst (hpoly : poly.msb = true) (hw : w = 8 * n) {bytes bytes' : List UInt8}
    (hlen : bytes.length = bytes'.length) {i : Nat}
    (hwindow : ∀ k, k < i ∨ i + w ≤ k →
      (textBits (sealed poly n bytes)).getD k false = (textBits (sealed poly n bytes')).getD k false) :
    sealed poly n bytes = sealed poly n bytes' := by
  by_contra hne
  have hlength : (sealed poly n bytes).length = (sealed poly n bytes').length := by simp [sealed, hlen]
  refine Crc.feedAll_ne_of_burst hpoly (by simp [hlength])
    (fun hbits => hne (eq_of_textBits hlength hbits)) hwindow (BitVec.allOnes w) ?_
  rw [feedAll_sealed hw, feedAll_sealed hw]

end Seal

end Mindone.Lib
