import Mathlib.Data.List.Basic
import Mathlib.Algebra.Ring.Nat

/-!
# Mindone.Lib.LittleEndian

Numbers as bytes, the low byte first, and the slices of a text of bytes that hold them. **A number
and its bytes determine each other** (`ofLe_toLe`, `toLe_ofLe`).
-/

namespace Mindone.Lib

/-! ### Words -/

/-- The number that some bytes hold. -/
def ofLe : List UInt8 → Nat
  | [] => 0
  | b :: rest => b.toNat + 0x100 * ofLe rest

/-- The `n` low bytes of a number. -/
def toLe : Nat → Nat → List UInt8
  | 0, _ => []
  | n + 1, value => UInt8.ofNat value :: toLe n (value / 0x100)

variable {n m value : Nat} {bytes : List UInt8}

@[simp] theorem ofLe_nil : ofLe [] = 0 := rfl

theorem ofLe_cons (b : UInt8) (rest : List UInt8) : ofLe (b :: rest) = b.toNat + 0x100 * ofLe rest := rfl

@[simp] theorem length_toLe (n value : Nat) : (toLe n value).length = n := by
  induction n generalizing value with
  | zero => rfl
  | succ n ih => rw [toLe, List.length_cons, ih]

theorem ofLe_lt (bytes : List UInt8) : ofLe bytes < 0x100 ^ bytes.length := by
  induction bytes with
  | nil => simp
  | cons b rest ih =>
      have hb := b.toNat_lt
      rw [ofLe_cons, List.length_cons, Nat.pow_succ]
      omega

@[simp] theorem ofLe_toLe (h : value < 0x100 ^ n) : ofLe (toLe n value) = value := by
  induction n generalizing value with
  | zero => exact (Nat.lt_one_iff.mp h).symm
  | succ n ih =>
      have hrest : value / 0x100 < 0x100 ^ n := by
        rw [Nat.pow_succ] at h
        omega
      rw [toLe, ofLe_cons, ih hrest, UInt8.toNat_ofNat']
      omega

theorem toLe_ofLe (bytes : List UInt8) : toLe bytes.length (ofLe bytes) = bytes := by
  induction bytes with
  | nil => rfl
  | cons b rest ih =>
      have hb := b.toNat_lt
      have hlow : UInt8.ofNat (b.toNat + 0x100 * ofLe rest) = b := by
        apply UInt8.toNat_inj.mp
        rw [UInt8.toNat_ofNat']
        omega
      have hhigh : (b.toNat + 0x100 * ofLe rest) / 0x100 = ofLe rest := by omega
      rw [List.length_cons, toLe, ofLe_cons, hlow, hhigh, ih]

/-- The bytes are those of the number they hold. -/
theorem toLe_eq_iff (hbytes : bytes.length = n) (hvalue : value < 0x100 ^ n) :
    toLe n value = bytes ↔ ofLe bytes = value := by
  constructor
  · rintro rfl
    exact ofLe_toLe hvalue
  · rintro rfl
    rw [← hbytes, toLe_ofLe]

/-! ### Slices -/

/-- `size` bytes from an offset on, or fewer when the text ends before. -/
def sliceAt (bytes : List UInt8) (offset size : Nat) : List UInt8 := (bytes.drop offset).take size

theorem length_sliceAt {offset size : Nat} (h : offset + size ≤ bytes.length) :
    (sliceAt bytes offset size).length = size := by
  rw [sliceAt, List.length_take, List.length_drop]
  omega

/-- The number in `size` bytes at an offset. -/
def leAt (size : Nat) (bytes : List UInt8) (offset : Nat) : Nat := ofLe (sliceAt bytes offset size)

theorem leAt_lt (size : Nat) (bytes : List UInt8) (offset : Nat) : leAt size bytes offset < 0x100 ^ size := by
  refine Nat.lt_of_lt_of_le (ofLe_lt _) (Nat.pow_le_pow_right (by omega) ?_)
  exact List.length_take_le _ _

/-- A slice is known by the number it holds. -/
theorem sliceAt_eq_iff {offset size : Nat} {field : List UInt8} (h : offset + size ≤ bytes.length)
    (hfield : field.length = size) :
    sliceAt bytes offset size = field ↔ leAt size bytes offset = ofLe field := by
  constructor
  · rintro rfl
    rfl
  · intro hnumber
    rw [← toLe_ofLe (sliceAt bytes offset size), ← toLe_ofLe field, length_sliceAt h, hfield, ← hnumber]
    rfl

/-- A slice of the text behind an offset. -/
theorem sliceAt_drop (bytes : List UInt8) (offset offset' size : Nat) :
    sliceAt (bytes.drop offset) offset' size = sliceAt bytes (offset + offset') size := by
  rw [sliceAt, sliceAt, List.drop_drop]

theorem leAt_drop (size : Nat) (bytes : List UInt8) (offset offset' : Nat) :
    leAt size (bytes.drop offset) offset' = leAt size bytes (offset + offset') := by
  rw [leAt, leAt, sliceAt_drop]

/-- A text is a slice at its front and the rest. -/
theorem toLe_leAt_append {offset size : Nat} (h : offset + size ≤ bytes.length) :
    toLe size (leAt size bytes offset) ++ bytes.drop (offset + size) = bytes.drop offset := by
  have hlength := length_sliceAt h
  have hword : toLe size (leAt size bytes offset) = sliceAt bytes offset size :=
    (toLe_eq_iff hlength (leAt_lt ..)).mpr rfl
  rw [hword, sliceAt, ← List.drop_drop, List.take_append_drop]

/-- The number at the front. -/
theorem leAt_toLe_append (h : value < 0x100 ^ n) (rest : List UInt8) :
    leAt n (toLe n value ++ rest) 0 = value := by
  have hfront : sliceAt (toLe n value ++ rest) 0 n = toLe n value := by
    rw [sliceAt, List.drop_zero, List.take_left' (length_toLe n value)]
  rw [leAt, hfront, ofLe_toLe h]

/-- What stands behind a front of known length. -/
theorem leAt_append {front : List UInt8} {offset : Nat} (h : front.length = offset) (rest : List UInt8)
    (offset' : Nat) : leAt n (front ++ rest) (offset + offset') = leAt n rest offset' := by
  rw [leAt, leAt, ← sliceAt_drop, List.drop_left' h]

/-- A number behind a front of known length. -/
theorem leAt_append_toLe {front : List UInt8} {offset : Nat} (h : front.length = offset)
    (hvalue : value < 0x100 ^ n) (rest : List UInt8) :
    leAt n (front ++ (toLe n value ++ rest)) offset = value := by
  have hbehind := @leAt_append n _ _ h (toLe n value ++ rest) 0
  rw [Nat.add_zero] at hbehind
  rw [hbehind, leAt_toLe_append hvalue]

/-! ### Words behind one another -/

/-- Words of the given sizes, from the front of a text. -/
def wordsAt : List Nat → List UInt8 → List Nat
  | [], _ => []
  | size :: sizes, bytes => leAt size bytes 0 :: wordsAt sizes (bytes.drop size)

/-- The text of words of the given sizes. -/
def joinWords : List Nat → List Nat → List UInt8
  | size :: sizes, value :: values => toLe size value ++ joinWords sizes values
  | _, _ => []

/-- The words have room in their sizes. -/
def Fit : List Nat → List Nat → Prop := List.Forall₂ fun size value => value < 0x100 ^ size

variable {sizes values : List Nat}

theorem length_joinWords (h : Fit sizes values) : (joinWords sizes values).length = sizes.sum := by
  induction h with
  | nil => rfl
  | cons _ _ ih => rw [joinWords, List.length_append, length_toLe, ih, List.sum_cons]

theorem wordsAt_joinWords (h : Fit sizes values) (rest : List UInt8) :
    wordsAt sizes (joinWords sizes values ++ rest) = values := by
  induction h with
  | nil => rfl
  | cons hvalue _ ih =>
      rw [joinWords, List.append_assoc, wordsAt, leAt_toLe_append hvalue,
        List.drop_left' (length_toLe ..), ih]

/-- The words at the front of a text, and the rest of it. -/
theorem joinWords_wordsAt (h : sizes.sum ≤ bytes.length) :
    joinWords sizes (wordsAt sizes bytes) = bytes.take sizes.sum := by
  induction sizes generalizing bytes with
  | nil => rfl
  | cons size sizes ih =>
      rw [List.sum_cons] at h
      have hfront := @toLe_leAt_append bytes 0 size (by omega)
      rw [Nat.zero_add, List.drop_zero] at hfront
      have hlen : sizes.sum ≤ (bytes.drop size).length := by
        rw [List.length_drop]
        omega
      have hword := congrArg (List.take size) hfront
      rw [List.take_left' (length_toLe ..)] at hword
      rw [wordsAt, joinWords, ih hlen, hword, List.sum_cons, List.take_add]

/-- **A text and its words determine each other.** -/
theorem eq_joinWords_iff (h : Fit sizes values) :
    bytes = joinWords sizes values ↔ bytes.length = sizes.sum ∧ wordsAt sizes bytes = values := by
  constructor
  · rintro rfl
    have hwords := wordsAt_joinWords h []
    rw [List.append_nil] at hwords
    exact ⟨length_joinWords h, hwords⟩
  · rintro ⟨hlength, rfl⟩
    rw [joinWords_wordsAt (Nat.le_of_eq hlength.symm), ← hlength, List.take_length]

/-! ### Bits -/

/-- A mask of one bit. -/
theorem and_two_pow_eq_zero (a i : Nat) : a &&& 2 ^ i = 0 ↔ a.testBit i = false := by
  constructor
  · intro hzero
    have hbit := congrArg (Nat.testBit · i) hzero
    simpa [Nat.testBit_and, Nat.testBit_two_pow] using hbit
  · intro hclear
    refine Nat.eq_of_testBit_eq fun j => ?_
    rw [Nat.testBit_and, Nat.testBit_two_pow, Nat.zero_testBit]
    by_cases h : i = j
    · rw [← h, hclear, Bool.false_and]
    · simp [h]

end Mindone.Lib
