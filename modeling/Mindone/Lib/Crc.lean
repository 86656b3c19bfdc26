import Mathlib.Data.List.GetD
import Mathlib.Logic.Function.Iterate

/-!
# Mindone.Lib.Crc

Cyclic redundancy checks in their reflected form, for a register of any width: each bit of the
input is added to the low end of the register, which then moves down by one, and the polynomial is
added when a one falls out. **A step is linear, and injective when the top bit of the polynomial is
set**; so a non-empty change within as many consecutive bits as the register has always changes the
register (`feedAll_ne_of_burst`).
-/

namespace Mindone.Lib.Crc

variable {w : Nat} (poly : BitVec w)

/-! ### The register -/

/-- A bit at the low end. -/
def low (w : Nat) (b : Bool) : BitVec w := BitVec.setWidth w (BitVec.ofBool b)

/-- The register moves down. -/
def shift (r : BitVec w) : BitVec w := (r >>> 1) ^^^ if r.getLsbD 0 then poly else 0#w

/-- A bit comes in. -/
def feed (r : BitVec w) (b : Bool) : BitVec w := shift poly (r ^^^ low w b)

/-- Bits come in, the first one first. -/
def feedAll (r : BitVec w) (bs : List Bool) : BitVec w := bs.foldl (feed poly) r

/-- Bits with the first one at the low end. -/
def pack (w : Nat) : List Bool → BitVec w
  | [] => 0#w
  | b :: bs => (pack w bs <<< 1) ^^^ low w b

variable {poly}

theorem getLsbD_low (b : Bool) (i : Nat) :
    (low w b).getLsbD i = (decide (i < w) && (decide (i = 0) && b)) := by
  unfold low
  rw [BitVec.getLsbD_setWidth, BitVec.getLsbD_ofBool]

theorem low_xor (b c : Bool) : low w (b ^^ c) = low w b ^^^ low w c := by
  apply BitVec.eq_of_getLsbD_eq
  intro i hi
  rw [BitVec.getLsbD_xor, getLsbD_low, getLsbD_low, getLsbD_low, decide_eq_true hi]
  cases decide (i = 0) <;> cases b <;> rfl

@[simp] theorem low_false : low w false = 0#w := by
  apply BitVec.eq_of_getLsbD_eq
  intro i _
  rw [getLsbD_low, Bool.and_false, Bool.and_false]
  exact (BitVec.getLsbD_zero ..).symm

/-- **A step is linear.** -/
theorem shift_xor (a b : BitVec w) : shift poly (a ^^^ b) = shift poly a ^^^ shift poly b := by
  unfold shift
  rw [BitVec.ushiftRight_xor_distrib, BitVec.getLsbD_xor]
  cases a.getLsbD 0 with
  | false => cases b.getLsbD 0 with
    | false => simp
    | true => simp [BitVec.xor_assoc]
  | true => cases b.getLsbD 0 with
    | false => simp; ac_rfl
    | true =>
        have hcancel : poly ^^^ (b >>> 1 ^^^ poly) = b >>> 1 := by
          rw [BitVec.xor_comm (b >>> 1), ← BitVec.xor_assoc, BitVec.xor_self, BitVec.zero_xor]
        simp [BitVec.xor_assoc, hcancel]

theorem shift_zero : shift poly 0#w = 0#w := by
  have h := @shift_xor w poly 0#w 0#w
  rwa [BitVec.xor_self, BitVec.xor_self] at h

/-- Only zero becomes zero, since the top bit of the register is set whenever a one falls out. -/
theorem shift_eq_zero (hpoly : poly.msb = true) {r : BitVec w} (h : shift poly r = 0#w) : r = 0#w := by
  have hbit : ∀ i, (shift poly r).getLsbD i = false := by
    intro i
    rw [h]
    exact BitVec.getLsbD_zero ..
  have hout : r.getLsbD 0 = false := by
    by_contra hone
    have htop := hbit (w - 1)
    have hset : poly.getLsbD (w - 1) = true := by rwa [← BitVec.msb_eq_getLsbD_last]
    unfold shift at htop
    rw [if_pos (by simpa using hone), BitVec.getLsbD_xor, BitVec.getLsbD_ushiftRight, hset,
      BitVec.getLsbD_of_ge r (1 + (w - 1)) (by omega)] at htop
    cases htop
  apply BitVec.eq_of_getLsbD_eq
  intro i _
  rw [BitVec.getLsbD_zero]
  cases i with
  | zero => exact hout
  | succ i =>
      have hi := hbit i
      unfold shift at hi
      rwa [hout, if_neg Bool.false_ne_true, BitVec.xor_zero, BitVec.getLsbD_ushiftRight,
        Nat.add_comm] at hi

theorem shift_iterate_eq_zero (hpoly : poly.msb = true) {r : BitVec w} :
    ∀ {n : Nat}, (shift poly)^[n] r = 0#w → r = 0#w
  | 0, h => h
  | n + 1, h => shift_eq_zero hpoly (@shift_iterate_eq_zero hpoly _ n h)

/-! ### Words of bits -/

theorem getLsbD_pack (bs : List Bool) {i : Nat} (hi : i < w) :
    (pack w bs).getLsbD i = bs.getD i false := by
  induction bs generalizing i with
  | nil => exact BitVec.getLsbD_zero ..
  | cons b bs ih =>
      show ((pack w bs <<< 1) ^^^ low w b).getLsbD i = _
      rw [BitVec.getLsbD_xor, BitVec.getLsbD_shiftLeft, getLsbD_low, decide_eq_true hi]
      cases i with
      | zero => simp
      | succ i =>
          rw [Nat.add_sub_cancel, ih (by omega)]
          simp

/-- A word that leaves the top bit free falls down by one place. -/
theorem shift_shiftLeft {p : BitVec w} (hp : p.getLsbD (w - 1) = false) :
    shift poly (p <<< 1) = p := by
  have hout : (p <<< 1).getLsbD 0 = false := by
    rw [BitVec.getLsbD_shiftLeft]
    simp
  unfold shift
  rw [hout, if_neg Bool.false_ne_true, BitVec.xor_zero]
  apply BitVec.eq_of_getLsbD_eq
  intro i hi
  rw [BitVec.getLsbD_ushiftRight, BitVec.getLsbD_shiftLeft]
  rcases Nat.lt_or_ge (1 + i) w with hlt | hge
  · rw [decide_eq_true hlt, Nat.add_sub_cancel_left]
    simp
  · obtain rfl : i = w - 1 := by omega
    rw [hp, decide_eq_false (by omega)]
    rfl

/-- **Bits that come in are added to the register**, as long as they fit into it. -/
theorem feedAll_eq {bs : List Bool} (hlen : bs.length ≤ w) (r : BitVec w) :
    feedAll poly r bs = (shift poly)^[bs.length] (r ^^^ pack w bs) := by
  induction bs generalizing r with
  | nil => exact (BitVec.xor_zero).symm
  | cons b bs ih =>
      rw [List.length_cons] at hlen
      have hfree : (pack w bs).getLsbD (w - 1) = false := by
        rw [getLsbD_pack bs (by omega), List.getD_eq_default _ _ (by omega)]
      have hstep : shift poly (r ^^^ pack w (b :: bs)) = feed poly r b ^^^ pack w bs := by
        calc shift poly (r ^^^ pack w (b :: bs))
            = shift poly ((r ^^^ low w b) ^^^ (pack w bs <<< 1)) := by
              show shift poly (r ^^^ ((pack w bs <<< 1) ^^^ low w b)) = _
              congr 1
              ac_rfl
          _ = feed poly r b ^^^ pack w bs := by
              rw [shift_xor, shift_shiftLeft hfree]
              rfl
      rw [List.length_cons, Function.iterate_succ_apply, hstep]
      exact ih (by omega) _

/-! ### Changes -/

/-- The bits that differ. -/
def changed (bs cs : List Bool) : List Bool := List.zipWith (· ^^ ·) bs cs

theorem feed_xor (r s : BitVec w) (b c : Bool) :
    feed poly (r ^^^ s) (b ^^ c) = feed poly r b ^^^ feed poly s c := by
  unfold feed
  rw [← shift_xor, low_xor]
  congr 1
  ac_rfl

/-- The registers differ by what the change alone makes of an empty one. -/
theorem feedAll_xor {bs cs : List Bool} (hlen : bs.length = cs.length) (r s : BitVec w) :
    feedAll poly r bs ^^^ feedAll poly s cs = feedAll poly (r ^^^ s) (changed bs cs) := by
  induction bs generalizing cs r s with
  | nil =>
      obtain rfl := List.length_eq_zero_iff.mp hlen.symm
      rfl
  | cons b bs ih =>
      cases cs with
      | nil => cases hlen
      | cons c cs =>
          show feedAll poly (feed poly r b) bs ^^^ feedAll poly (feed poly s c) cs =
            feedAll poly (feed poly (r ^^^ s) (b ^^ c)) (changed bs cs)
          rw [feed_xor]
          exact ih (Nat.succ.inj hlen) _ _

theorem feedAll_append (r : BitVec w) (bs cs : List Bool) :
    feedAll poly r (bs ++ cs) = feedAll poly (feedAll poly r bs) cs := List.foldl_append

/-- Zeros move the register on. -/
theorem feedAll_zeros (r : BitVec w) (n : Nat) :
    feedAll poly r (List.replicate n false) = (shift poly)^[n] r := by
  induction n generalizing r with
  | zero => rfl
  | succ n ih =>
      show feedAll poly (feed poly r false) (List.replicate n false) = _
      rw [ih, Function.iterate_succ_apply]
      unfold feed
      rw [low_false, BitVec.xor_zero]

theorem shift_iterate_zero (n : Nat) : (shift poly)^[n] 0#w = 0#w := by
  induction n with
  | zero => rfl
  | succ n ih => rw [Function.iterate_succ_apply, shift_zero, ih]

/-- **A burst that fits into the register shows**: the bits outside of a window are clear, and one
inside is set. -/
theorem feedAll_burst_ne_zero (hpoly : poly.msb = true) {i j : Nat} {ws : List Bool}
    (hlen : ws.length ≤ w) (hset : true ∈ ws) :
    feedAll poly 0#w (List.replicate i false ++ ws ++ List.replicate j false) ≠ 0#w := by
  intro hzero
  rw [feedAll_append, feedAll_append, feedAll_zeros, feedAll_zeros, shift_iterate_zero,
    feedAll_eq hlen, BitVec.zero_xor] at hzero
  have hpack : pack w ws = 0#w := shift_iterate_eq_zero hpoly (shift_iterate_eq_zero hpoly hzero)
  obtain ⟨n, hn, hbit⟩ := List.getElem_of_mem hset
  have hclear := @getLsbD_pack w ws n (by omega)
  rw [hpack, List.getD_eq_getElem _ _ hn, hbit, BitVec.getLsbD_zero] at hclear
  cases hclear

/-- A list that is clear outside of a window. -/
theorem eq_window {xs : List Bool} {i n : Nat}
    (h : ∀ k, k < i ∨ i + n ≤ k → xs.getD k false = false) :
    xs = List.replicate (min i xs.length) false ++ (xs.drop i).take n ++
      List.replicate (xs.length - (i + n)) false := by
  have hclear : ∀ k (hk : k < xs.length), k < i ∨ i + n ≤ k → xs[k] = false := by
    intro k hk hout
    have := h k hout
    rwa [List.getD_eq_getElem _ _ hk] at this
  have hbefore : xs.take i = List.replicate (min i xs.length) false := by
    refine List.eq_replicate_iff.mpr ⟨List.length_take, fun b hb => ?_⟩
    obtain ⟨k, hk, rfl⟩ := List.getElem_of_mem hb
    rw [List.length_take] at hk
    rw [List.getElem_take]
    exact hclear k (by omega) (.inl (by omega))
  have hbehind : (xs.drop i).drop n = List.replicate (xs.length - (i + n)) false := by
    rw [List.drop_drop]
    refine List.eq_replicate_iff.mpr ⟨List.length_drop, fun b hb => ?_⟩
    obtain ⟨k, hk, rfl⟩ := List.getElem_of_mem hb
    rw [List.getElem_drop]
    exact hclear _ _ (.inr (by omega))
  calc xs = xs.take i ++ ((xs.drop i).take n ++ (xs.drop i).drop n) := by
        rw [List.take_append_drop, List.take_append_drop]
    _ = _ := by rw [hbefore, hbehind, List.append_assoc]

/-- **A non-empty change within a window of the register's width changes the register.** -/
theorem feedAll_ne_of_burst (hpoly : poly.msb = true) {bs cs : List Bool}
    (hlen : bs.length = cs.length) (hne : bs ≠ cs) {i : Nat}
    (hwindow : ∀ k, k < i ∨ i + w ≤ k → bs.getD k false = cs.getD k false) (r : BitVec w) :
    feedAll poly r bs ≠ feedAll poly r cs := by
  intro heq
  -- By linearity the change alone, fed to an empty register, would give zero.
  have hzero : feedAll poly 0#w (changed bs cs) = 0#w := by
    have hxor := @feedAll_xor _ poly _ _ hlen r r
    rw [heq, BitVec.xor_self, BitVec.xor_self] at hxor
    exact hxor.symm
  have hchanged : (changed bs cs).length = bs.length := by
    unfold changed
    rw [List.length_zipWith]
    omega
  have hget : ∀ k, (changed bs cs).getD k false = (bs.getD k false ^^ cs.getD k false) := by
    intro k
    rcases Nat.lt_or_ge k bs.length with hk | hk
    · have hk' : k < cs.length := hlen ▸ hk
      rw [List.getD_eq_getElem bs _ hk, List.getD_eq_getElem cs _ hk',
        List.getD_eq_getElem _ _ (hchanged.symm ▸ hk)]
      exact List.getElem_zipWith
    · have hk' : cs.length ≤ k := hlen ▸ hk
      rw [List.getD_eq_default bs _ hk, List.getD_eq_default cs _ hk',
        List.getD_eq_default _ _ (hchanged.symm ▸ hk)]
      rfl
  -- Outside the window nothing is changed,
  have hclear : ∀ k, k < i ∨ i + w ≤ k → (changed bs cs).getD k false = false := by
    intro k hk
    rw [hget, hwindow k hk, Bool.xor_self]
  -- and inside it something is, since the messages differ.
  have hset : true ∈ ((changed bs cs).drop i).take w := by
    by_contra hnone
    apply hne
    refine List.ext_getElem hlen fun k hk hk' => ?_
    have hbit : (changed bs cs).getD k false = false := by
      by_contra hone
      have hone' : (changed bs cs).getD k false = true := by simpa using hone
      have hin : i ≤ k ∧ k < i + w := by
        by_contra hout
        rw [hclear k (by omega)] at hone'
        cases hone'
      refine hnone (List.mem_take_iff_getElem.mpr ⟨k - i, ?_, ?_⟩)
      · rw [List.length_drop, hchanged]
        omega
      · have hk'' : k < (changed bs cs).length := hchanged.symm ▸ hk
        rw [List.getElem_drop]
        rw [List.getD_eq_getElem _ _ hk''] at hone'
        simpa [Nat.add_sub_cancel' hin.1] using hone'
    rw [hget, List.getD_eq_getElem _ _ hk, List.getD_eq_getElem _ _ hk'] at hbit
    exact beq_iff_eq.mp (by simpa using hbit)
  -- What is left is a burst no longer than the register.
  rw [eq_window hclear] at hzero
  exact feedAll_burst_ne_zero hpoly (List.length_take_le _ _) hset hzero

end Mindone.Lib.Crc
