import Mathlib.Data.List.Basic

/-!
# Mindone.Lib.Window

Fixed-size buffers with a **live window**. A buffer is a list whose length
never changes; the live bytes are the window `[i, j)`, read with `slice`. Two
writes are enough for every buffer of the program:

* `copyToFront l i j` moves the window `[i, j)` to the front (`copy_within` of
  Rust, `memmove` to the start in C) and leaves the cells behind it as they
  were;
* `blit l at src` overwrites the cells from `at` on with `src`
  (`copy_from_slice`, `memcpy`).

The lemmas say what the window holds afterwards, so that a client never
mentions the dead cells.
-/

namespace Mindone.Lib

variable {α : Type*}

/-- The window `[i, j)` of a buffer. -/
def slice (l : List α) (i j : Nat) : List α := (l.take j).drop i

/-- Move the window `[i, j)` to the front, leaving every other cell alone. -/
def copyToFront (l : List α) (i j : Nat) : List α := slice l i j ++ l.drop (j - i)

/-- Overwrite the cells from `pos` on with `src`. -/
def blit (l : List α) (pos : Nat) (src : List α) : List α :=
  l.take pos ++ src ++ l.drop (pos + src.length)

@[simp] theorem slice_self (l : List α) (i : Nat) : slice l i i = [] := by
  simp [slice]

theorem slice_length {l : List α} {i j : Nat} (h : j ≤ l.length) :
    (slice l i j).length = j - i := by
  simp [slice, Nat.min_eq_left h]

/-- Dropping from a window moves its left end. -/
theorem slice_drop (l : List α) (i j n : Nat) :
    (slice l i j).drop n = slice l (i + n) j := by
  simp [slice]

/-- Taking from a window moves its right end. -/
theorem slice_take {l : List α} {i j n : Nat} (h : i + n ≤ j) :
    (slice l i j).take n = slice l i (i + n) := by
  unfold slice
  rw [List.take_drop, List.take_take, Nat.min_eq_left h]

/-- A cell inside the window, read through the buffer. -/
theorem slice_getElem? {l : List α} {i j k : Nat} (h : i + k < j) :
    (slice l i j)[k]? = l[i + k]? := by
  simp [slice, h]

/-- The window starts with its first cell. -/
theorem slice_eq_cons {l : List α} {i j : Nat} (hij : i < j) (hj : j ≤ l.length) (d : α) :
    slice l i j = l.getD i d :: slice l (i + 1) j := by
  have hi : i < l.length := by omega
  unfold slice
  rw [List.drop_eq_getElem_cons (by simp; omega)]
  simp [hi]

theorem copyToFront_length {l : List α} {i j : Nat} (hij : i ≤ j) (hj : j ≤ l.length) :
    (copyToFront l i j).length = l.length := by
  rw [copyToFront, List.length_append, slice_length hj, List.length_drop]
  omega

/-- After the move the window is the first `j - i` cells. -/
theorem slice_copyToFront {l : List α} {i j : Nat} (hj : j ≤ l.length) :
    slice (copyToFront l i j) 0 (j - i) = slice l i j := by
  have hlen : (slice l i j).length = j - i := slice_length hj
  simp only [slice, copyToFront, List.drop_zero] at hlen ⊢
  exact List.take_left' hlen

theorem blit_length {l src : List α} {pos : Nat} (h : pos + src.length ≤ l.length) :
    (blit l pos src).length = l.length := by
  simp only [blit, List.length_append, List.length_take, List.length_drop]
  omega

/-- A window that ends where `src` is written grows by `src`. -/
theorem slice_blit {l src : List α} {i pos : Nat} (hi : i ≤ pos) (hpos : pos ≤ l.length) :
    slice (blit l pos src) i (pos + src.length) = slice l i pos ++ src := by
  have hlen : (l.take pos ++ src).length = pos + src.length := by
    simp [Nat.min_eq_left hpos]
  have hi' : i ≤ (l.take pos).length := by simpa [Nat.min_eq_left hpos] using hi
  unfold slice blit
  rw [List.take_left' hlen, List.drop_append_of_le_length hi']

/-- Writing one cell. -/
theorem set_eq_blit {l : List α} {pos : Nat} (h : pos < l.length) (a : α) :
    l.set pos a = blit l pos [a] := by
  rw [List.set_eq_take_append_cons_drop, if_pos h]
  simp [blit]

/-- Two writes side by side are one write. -/
theorem blit_blit {l s t : List α} {pos : Nat} (h : pos + s.length ≤ l.length) :
    blit (blit l pos s) (pos + s.length) t = blit l pos (s ++ t) := by
  have hlen : (l.take pos ++ s).length = pos + s.length := by
    rw [List.length_append, List.length_take]
    omega
  have hdrop : (l.take pos ++ s ++ l.drop (pos + s.length)).drop (pos + s.length + t.length) =
      l.drop (pos + s.length + t.length) := by
    rw [List.drop_append, hlen, List.drop_eq_nil_of_le (by omega), List.drop_drop,
      List.nil_append]
    congr 1
    omega
  simp only [blit]
  rw [List.take_left' hlen, hdrop, List.length_append]
  simp [Nat.add_assoc]

/-- One more cell behind a write. -/
theorem set_blit {l s : List α} {pos : Nat} (h : pos + s.length < l.length) (a : α) :
    (blit l pos s).set (pos + s.length) a = blit l pos (s ++ [a]) := by
  have hlen : (blit l pos s).length = l.length := blit_length (by omega)
  rw [set_eq_blit (by omega), blit_blit (by omega)]

/-- A write from the first cell on. -/
theorem blit_zero (l s : List α) : blit l 0 s = s ++ l.drop s.length := by
  simp [blit]

/-- Extending a write from the first cell on by a block. -/
theorem blit_blit_zero {l s t : List α} {k : Nat} (hk : k = s.length) (h : k ≤ l.length) :
    blit (blit l 0 s) k t = blit l 0 (s ++ t) := by
  have hmerge : blit (blit l 0 s) (0 + s.length) t = blit l 0 (s ++ t) := blit_blit (by omega)
  rwa [Nat.zero_add, ← hk] at hmerge

/-- Extending a write from the first cell on by one cell. -/
theorem set_blit_zero {l s : List α} {k : Nat} (hk : k = s.length) (h : k < l.length) (a : α) :
    (blit l 0 s).set k a = blit l 0 (s ++ [a]) := by
  have hmerge : (blit l 0 s).set (0 + s.length) a = blit l 0 (s ++ [a]) :=
    set_blit (by omega) a
  rwa [Nat.zero_add, ← hk] at hmerge

end Mindone.Lib
