import Mathlib.Data.List.Basic

/-!
# Mindone.Lib.EaField

Fields whose bytes go on up to the first one with its lowest bit set (the extension bit), and the
number that the other seven bits of each byte make up, the low ones first. A field is found in a
text at **one place only** (`EaField.unique`).
-/

namespace Mindone.Lib

/-- The last byte of a field. -/
def extensionBit (b : UInt8) : Bool := b &&& 1 != 0

/-- A field and its number. -/
inductive EaField : List UInt8 → Nat → Prop
  | last (b : UInt8) : extensionBit b = true → EaField [b] (b >>> 1).toNat
  | more (b : UInt8) (rest : List UInt8) (n : Nat) : extensionBit b = false → EaField rest n →
      EaField (b :: rest) ((b >>> 1).toNat + 128 * n)

variable {field field' rest rest' input : List UInt8} {n n' : Nat}

theorem EaField.ne_nil (h : EaField field n) : field ≠ [] := by
  cases h <;> simp

/-- Two fields at the front of one text are the same. -/
theorem EaField.unique (h : EaField field n) (h' : EaField field' n')
    (heq : field ++ rest = field' ++ rest') : field = field' ∧ n = n' ∧ rest = rest' := by
  induction h generalizing field' n' with
  | last b hb =>
      cases h' with
      | last b' hb' =>
          obtain ⟨rfl, rfl⟩ := List.cons.inj heq
          exact ⟨rfl, rfl, rfl⟩
      | more b' tail' m' hb' h' =>
          obtain ⟨rfl, -⟩ := List.cons.inj heq
          exact absurd (hb.symm.trans hb') (by decide)
  | more b tail m hb h ih =>
      cases h' with
      | last b' hb' =>
          obtain ⟨rfl, -⟩ := List.cons.inj heq
          exact absurd (hb'.symm.trans hb) (by decide)
      | more b' tail' m' hb' h' =>
          obtain ⟨rfl, htail⟩ := List.cons.inj heq
          obtain ⟨rfl, rfl, rfl⟩ := ih h' htail
          exact ⟨rfl, rfl, rfl⟩

/-- The place where a field ends. -/
theorem EaField.findIdx? (h : EaField field n) (rest : List UInt8) :
    (field ++ rest).findIdx? extensionBit = some (field.length - 1) := by
  induction h with
  | last b hb => simp [List.findIdx?_cons, hb]
  | more b tail m hb h ih =>
      have hlength : tail.length ≠ 0 := by simpa using h.ne_nil
      rw [List.cons_append, List.findIdx?_cons, hb, ih]
      simp only [Bool.false_eq_true, if_false, Option.map_some, List.length_cons]
      congr 1
      omega

/-- A text with an extension bit starts with a field. -/
theorem exists_field {i : Nat} (h : input.findIdx? extensionBit = some i) :
    ∃ field rest n, input = field ++ rest ∧ EaField field n ∧ field.length = i + 1 := by
  induction input generalizing i with
  | nil => simp at h
  | cons b tail ih =>
      rw [List.findIdx?_cons] at h
      cases hb : extensionBit b with
      | true =>
          rw [hb, if_pos rfl] at h
          obtain rfl := Option.some.inj h
          exact ⟨[b], tail, _, rfl, .last b hb, rfl⟩
      | false =>
          rw [hb, if_neg (by decide), Option.map_eq_some_iff] at h
          obtain ⟨j, hj, rfl⟩ := h
          obtain ⟨field, rest, n, rfl, hfield, hlength⟩ := ih hj
          exact ⟨b :: field, rest, _, rfl, .more b field n hb hfield, congrArg (· + 1) hlength⟩

end Mindone.Lib
