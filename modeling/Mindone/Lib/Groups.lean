import Mathlib.Data.List.Basic

/-!
# Mindone.Lib.Groups

A sequence that is worked off **a whole group at a time**: its groups of `n` elements each, and what
is left over behind the last of them. One more element either completes a group or stays with what
is left (`groups_concat_full`, `groups_concat_part`), which is all that a machine which is fed the
elements one by one, in whatever pieces, has to keep up with.
-/

namespace Mindone.Lib

variable {α : Type*} {n : Nat}

/-- The whole groups of `n` consecutive elements. -/
def groups (n : Nat) (xs : List α) : List (List α) :=
  (List.range (xs.length / n)).map fun k => (xs.drop (k * n)).take n

/-- The elements behind the last whole group. -/
def leftover (n : Nat) (xs : List α) : List α := xs.drop (xs.length / n * n)

@[simp] theorem groups_nil : groups n ([] : List α) = [] := by simp [groups]

@[simp] theorem leftover_nil : leftover n ([] : List α) = [] := by simp [leftover]

@[simp] theorem length_groups (xs : List α) : (groups n xs).length = xs.length / n := by
  simp [groups]

@[simp] theorem length_leftover (xs : List α) : (leftover n xs).length = xs.length % n := by
  simp only [leftover, List.length_drop]
  have := Nat.div_add_mod xs.length n
  rw [Nat.mul_comm] at this
  omega

theorem length_leftover_lt (hn : 0 < n) (xs : List α) : (leftover n xs).length < n := by
  simpa using Nat.mod_lt _ hn

/-- A whole group ends within the sequence. -/
private theorem group_end_le {m k : Nat} (hk : k < m / n) : k * n + n ≤ m := by
  have hle : (k + 1) * n ≤ m / n * n := Nat.mul_le_mul_right n hk
  rw [Nat.add_mul, Nat.one_mul] at hle
  exact Nat.le_trans hle (Nat.div_mul_le_self _ _)

/-- The groups of a longer sequence start with those of its front. -/
private theorem take_drop_append {xs : List α} {k : Nat} (hk : k < xs.length / n) (x : α) :
    ((xs ++ [x]).drop (k * n)).take n = (xs.drop (k * n)).take n := by
  have hle := group_end_le hk
  rw [List.drop_append_of_le_length (by omega), List.take_append_of_le_length]
  simp only [List.length_drop]
  omega

/-- An element that does not complete a group stays with what is left over. -/
theorem groups_concat_part {xs : List α} (x : α) (h : (leftover n xs).length + 1 < n) :
    groups n (xs ++ [x]) = groups n xs ∧ leftover n (xs ++ [x]) = leftover n xs ++ [x] := by
  rw [length_leftover] at h
  have hsplit := Nat.div_add_mod xs.length n
  rw [Nat.mul_comm] at hsplit
  have hdiv : (xs.length + 1) / n = xs.length / n := by
    refine Nat.div_eq_of_lt_le (by omega) ?_
    rw [Nat.add_mul, Nat.one_mul]
    omega
  refine ⟨?_, ?_⟩
  · simp only [groups, List.length_append, List.length_singleton, hdiv]
    exact List.map_congr_left fun k hk => take_drop_append (List.mem_range.mp hk) x
  · simp only [leftover, List.length_append, List.length_singleton, hdiv]
    exact List.drop_append_of_le_length (Nat.div_mul_le_self _ _)

/-- An element that completes a group. -/
theorem groups_concat_full {xs : List α} (x : α) (h : (leftover n xs).length + 1 = n) :
    groups n (xs ++ [x]) = groups n xs ++ [leftover n xs ++ [x]] ∧ leftover n (xs ++ [x]) = [] := by
  have hn : 0 < n := by omega
  rw [length_leftover] at h
  have hsplit := Nat.div_add_mod xs.length n
  have hdiv : (xs.length + 1) / n = xs.length / n + 1 := by
    have hsum : xs.length + 1 = n * (xs.length / n + 1) := by
      rw [Nat.mul_add, Nat.mul_one]
      omega
    rw [hsum, Nat.mul_div_cancel_left _ hn]
  rw [Nat.mul_comm] at hsplit
  refine ⟨?_, ?_⟩
  · simp only [groups, List.length_append, List.length_singleton, hdiv, List.range_succ,
      List.map_append, List.map_cons, List.map_nil]
    congr 1
    · exact List.map_congr_left fun k hk => take_drop_append (List.mem_range.mp hk) x
    · rw [List.drop_append_of_le_length (by omega), List.take_of_length_le, leftover]
      simp only [List.length_append, List.length_drop, List.length_singleton]
      omega
  · simp only [leftover, List.length_append, List.length_singleton, hdiv, Nat.add_mul, Nat.one_mul]
    rw [List.drop_eq_nil_of_le]
    simp only [List.length_append, List.length_singleton]
    omega

end Mindone.Lib
