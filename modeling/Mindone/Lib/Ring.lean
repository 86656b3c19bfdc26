import Mathlib.Data.List.Basic

/-!
# Mindone.Lib.Ring

A queue in a **ring of cells**: the cell of the oldest element, how many there are, and a capacity
that may be less than there are cells. The bounds are part of the structure, so that no index is
outside of the cells. What a client sees is `contents`: a push appends to it, and a pop takes its
first element.
-/

namespace Mindone.Lib

variable {α : Type*} {size : Nat}

structure Ring (α : Type*) (size : Nat) where
  items : Vector α size
  cap : Nat
  head : Nat
  count : Nat
  cap_le : cap ≤ size
  head_lt : head < cap
  count_le : count ≤ cap

namespace Ring

/-- The cell that stands so many behind the oldest element. -/
def index (ring : Ring α size) (k : Nat) : Fin size :=
  ⟨(ring.head + k) % ring.cap,
    Nat.lt_of_lt_of_le (Nat.mod_lt _ (Nat.zero_lt_of_lt ring.head_lt)) ring.cap_le⟩

/-- What is in the queue, the oldest element first. -/
def contents (ring : Ring α size) : List α :=
  (List.range ring.count).map fun k => ring.items.get (ring.index k)

/-- Append an element. -/
def push (ring : Ring α size) (x : α) (h : ring.count < ring.cap) : Ring α size :=
  { ring with
    items := ring.items.set (ring.index ring.count) x
    count := ring.count + 1
    count_le := h }

/-- Take the oldest element. -/
def pop (ring : Ring α size) : Option (α × Ring α size) :=
  if 0 < ring.count then
    some (ring.items.get (ring.index 0), { ring with
      head := (ring.head + 1) % ring.cap
      count := ring.count - 1
      head_lt := Nat.mod_lt _ (Nat.zero_lt_of_lt ring.head_lt)
      count_le := Nat.le_trans (Nat.sub_le _ _) ring.count_le })
  else none

@[simp] theorem length_contents (ring : Ring α size) : ring.contents.length = ring.count := by
  simp [contents]

/-- An index wraps once at most. -/
theorem add_mod_eq {head k cap : Nat} (hhead : head < cap) (hk : k ≤ cap) :
    (head + k) % cap = if head + k < cap then head + k else head + k - cap := by
  split
  next h => exact Nat.mod_eq_of_lt h
  next h =>
    rw [Nat.mod_eq_sub_mod (Nat.not_lt.mp h)]
    exact Nat.mod_eq_of_lt (by omega)

theorem get_eq (items : Vector α size) (i : Fin size) : items.get i = items[i.val] := rfl

theorem contents_push (ring : Ring α size) (x : α) (h : ring.count < ring.cap) :
    (ring.push x h).contents = ring.contents ++ [x] := by
  have hhead := ring.head_lt
  have hle := ring.count_le
  have hcontents : (ring.push x h).contents = (List.range (ring.count + 1)).map fun k =>
      (ring.items.set (ring.index ring.count) x).get (ring.index k) := rfl
  rw [hcontents, List.range_succ, List.map_append, List.map_cons, List.map_nil, contents]
  congr 1
  · refine List.map_congr_left fun k hk => ?_
    -- the new cell is none of those in use
    have hk := List.mem_range.mp hk
    have hne : (ring.index ring.count).val ≠ (ring.index k).val := by
      simp only [index]
      rw [add_mod_eq hhead (by omega), add_mod_eq hhead (by omega)]
      split <;> split <;> omega
    rw [get_eq, get_eq, Vector.getElem_set_ne _ _ hne]
  · rw [get_eq, Vector.getElem_set_self]

/-- A pop takes the first element, if there is one. -/
theorem pop_cases (ring : Ring α size) :
    (ring.pop = none ∧ ring.contents = []) ∨
      ∃ x rest, ring.pop = some (x, rest) ∧ ring.contents = x :: rest.contents ∧ rest.cap = ring.cap := by
  unfold pop
  by_cases h : 0 < ring.count
  · refine .inr ⟨_, _, if_pos h, ?_, rfl⟩
    have hrange : List.range ring.count = 0 :: (List.range (ring.count - 1)).map Nat.succ := by
      rw [← List.range_succ_eq_map]
      congr 1
      omega
    rw [contents, hrange, List.map_cons, List.map_map, contents]
    congr 1
    refine List.map_congr_left fun k _ => congrArg ring.items.get (Fin.ext ?_)
    simp only [index]
    rw [Nat.mod_add_mod, Nat.add_assoc, Nat.add_comm 1]
  · have hzero : ring.count = 0 := by omega
    exact .inl ⟨if_neg h, by simp [contents, hzero]⟩

end Ring

end Mindone.Lib
