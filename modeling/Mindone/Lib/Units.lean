import Mathlib.Data.List.Basic

/-!
# Mindone.Lib.Units

A stream as a sequence of **units**. A grammar `next` looks at what is left of a stream and says
what its first unit means, if anything, and how long it is, or that the unit is not complete. A
grammar is **steady** when what comes behind a unit does not change it; a reader that gets the stream
in pieces then only has to know where the last complete unit ended (`Settled`).
-/

namespace Mindone.Lib

variable {α β : Type*}

/-- The meanings of the complete units of a stream, at most as many as there is fuel. -/
def unitsUpTo (next : List α → Option (Option β × Nat)) : Nat → List α → List β
  | 0, _ => []
  | fuel + 1, stream =>
      match next stream with
      | none => []
      | some (unit, size) => unit.toList ++ unitsUpTo next fuel (stream.drop size)

/-- The meanings of the complete units of a stream. -/
def units (next : List α → Option (Option β × Nat)) (stream : List α) : List β :=
  unitsUpTo next stream.length stream

structure Steady (next : List α → Option (Option β × Nat)) : Prop where
  pos : ∀ {stream unit size}, next stream = some (unit, size) → 0 < size
  le : ∀ {stream unit size}, next stream = some (unit, size) → size ≤ stream.length
  append : ∀ {stream unit size}, next stream = some (unit, size) →
    ∀ more, next (stream ++ more) = some (unit, size)

variable {next : List α → Option (Option β × Nat)} {stream done : List α} {seen : List β}
variable {unit : Option β} {size : Nat}

theorem units_of_none (h : next stream = none) : units next stream = [] := by
  unfold units
  cases stream.length with
  | zero => rfl
  | succ fuel => simp [unitsUpTo, h]

/-- There is fuel enough once there is some for each element of the stream. -/
theorem Steady.unitsUpTo_eq (h : Steady next) (fuel fuel' : Nat) (stream : List α)
    (hfuel : stream.length ≤ fuel) (hfuel' : stream.length ≤ fuel') :
    unitsUpTo next fuel stream = unitsUpTo next fuel' stream := by
  induction fuel generalizing fuel' stream with
  | zero =>
      obtain rfl := List.eq_nil_of_length_eq_zero (Nat.le_zero.1 hfuel)
      cases fuel' with
      | zero => rfl
      | succ fuel' =>
          cases hnext : next [] with
          | none => simp [unitsUpTo, hnext]
          | some first =>
              -- the empty stream holds no unit
              have := h.pos hnext
              have := h.le hnext
              simp only [List.length_nil] at this
              omega
  | succ fuel ih =>
      cases hnext : next stream with
      | none =>
          cases fuel' with
          | zero => simp [unitsUpTo, hnext]
          | succ fuel' => simp [unitsUpTo, hnext]
      | some first =>
          have hpos := h.pos hnext
          have hle := h.le hnext
          obtain ⟨n, rfl⟩ : ∃ n, fuel' = n + 1 := ⟨fuel' - 1, by omega⟩
          simp only [unitsUpTo, hnext]
          rw [ih n (stream.drop first.2) (by rw [List.length_drop]; omega)
            (by rw [List.length_drop]; omega)]

/-- The units of a stream are its first one and those behind it. -/
theorem Steady.units_eq (h : Steady next) (hnext : next stream = some (unit, size)) :
    units next stream = unit.toList ++ units next (stream.drop size) := by
  have hpos := h.pos hnext
  have hle := h.le hnext
  obtain ⟨n, hn⟩ : ∃ n, stream.length = n + 1 := ⟨stream.length - 1, by omega⟩
  rw [units, hn]
  simp only [unitsUpTo, hnext]
  rw [h.unitsUpTo_eq n (stream.drop size).length _ (by rw [List.length_drop]; omega) (Nat.le_refl _)]
  rfl

/-- `done` ends where a unit ends, and its units mean `seen`. -/
def Settled (next : List α → Option (Option β × Nat)) (done : List α) (seen : List β) : Prop :=
  ∀ more, units next (done ++ more) = seen ++ units next more

theorem settled_nil : Settled next [] [] := by
  intro more
  simp

/-- One more complete unit. -/
theorem Settled.snoc (hsettled : Settled next done seen) (h : Steady next)
    (hnext : next stream = some (unit, stream.length)) :
    Settled next (done ++ stream) (seen ++ unit.toList) := by
  intro more
  rw [List.append_assoc, hsettled, h.units_eq (h.append hnext more), List.drop_left, List.append_assoc]

/-- What follows the last complete unit adds nothing. -/
theorem Settled.units_append (hsettled : Settled next done seen) (hnext : next stream = none) :
    units next (done ++ stream) = seen := by
  rw [hsettled, units_of_none hnext, List.append_nil]

end Mindone.Lib
