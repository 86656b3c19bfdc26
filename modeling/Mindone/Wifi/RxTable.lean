import Mathlib.Data.Finset.Filter
import Mathlib.Data.Finset.Range
import Mindone.Lib.SharedSlots
import Mindone.Wifi.RxFirmware

/-!
# Mindone.Wifi.RxTable

The table of the receive filter (`tools/wifi/rxfilter-table.c`): for each of four BSSs an address
count and three control bytes, and 32 entries of eight bytes that the BSSs share. The first byte of
an entry says whether it is in use, the second has one bit for each BSS, the other six are the
address.

**The entries are a `Slots` table** whose owners are the BSSs (`slots_reset`, `seek_slots`), as long
as an entry that is not in use has no bit set (`Table.Sound`).
-/

namespace Mindone.Wifi

open Mindone.Lib

/-- What the pointer at `0xf03adc2c` points to, by offset. -/
abbrev Table := Nat → Byte

namespace Table

def store (t : Table) (i : Nat) (value : Byte) : Table := Function.update t i value

def store32 (t : Table) (i : Nat) (value : BitVec 32) : Table :=
  (((t.store i (value.setWidth 8)).store (i + 1) ((value >>> 8).setWidth 8)).store (i + 2)
    ((value >>> 16).setWidth 8)).store (i + 3) ((value >>> 24).setWidth 8)

@[simp] theorem store_same (t : Table) (i : Nat) (value : Byte) : t.store i value i = value :=
  Function.update_self ..

theorem store_ne {i j : Nat} (h : j ≠ i) (t : Table) (value : Byte) : t.store i value j = t j :=
  Function.update_of_ne h ..

theorem store32_ne {i j : Nat} (h : j < i ∨ i + 4 ≤ j) (t : Table) (value : BitVec 32) :
    t.store32 i value j = t j := by
  unfold store32
  rw [store_ne (by omega), store_ne (by omega), store_ne (by omega), store_ne (by omega)]

end Table

/-- `1u << bss` -/
def mask (bss : Nat) : Byte := (1 : Byte) <<< bss

/-- `state + 0x100 + i * 8` -/
def entryAt (i : Nat) : Nat := 0x100 + i * 8

/-- The loop body of `rxfilter_legacy_table_reset`. -/
def resetEntry (bss : Nat) (t : Table) (i : Nat) : Table :=
  let entry := entryAt i
  if t entry ≠ 0 ∧ t (entry + 1) &&& mask bss ≠ 0 then
    let t := t.store (entry + 1) (t (entry + 1) &&& ~~~mask bss)
    if t (entry + 1) = 0 then t.store entry 0 else t
  else t

/-- `rxfilter_legacy_table_reset` -/
def rxfilterLegacyTableReset (bss : Nat) (t : Table) : Table :=
  let t := t.store32 (0xe4 + 4 * bss) 0
  let t := ((t.store (0xf4 + bss) 0x53).store (0xf8 + bss) 0x42).store (0xfc + bss) 0x42
  (List.range 32).foldl (resetEntry bss) t

/-- The address is written to an entry. -/
def storeAddress (t : Table) (entry : Nat) (address : Buffer) : Table :=
  (List.range 6).foldl (fun t j => t.store (entry + j + 2) (address j)) t

/-- The loop of `rxfilter_legacy_table_seek`, with the turns that are left. -/
def seekFrom (bss : Nat) (address : Buffer) (t : Table) : Nat → Nat → Bool × Table
  | 0, _ => (false, t)
  | turns + 1, i =>
      let entry := entryAt i
      if t entry ≠ 0 then
        if ∃ j < 6, t (entry + j + 2) ≠ address j then seekFrom bss address t turns (i + 1)
        else (true, t.store (entry + 1) (t (entry + 1) ||| mask bss))
      else
        let t := storeAddress t entry address
        let t := t.store (entry + 1) (t (entry + 1) ||| mask bss)
        (true, t.store entry 1)

/-- `rxfilter_legacy_table_seek` -/
def rxfilterLegacyTableSeek (bss : Nat) (address : Buffer) (t : Table) : Bool × Table :=
  seekFrom bss address t 32 0

/-! ### The entries as slots -/

/-- The six bytes of an address. -/
def addressBytes (address : Buffer) : List Byte := (List.range 6).map address

/-- The BSSs whose bits are set. -/
def ownersOf (bits : Byte) : Finset Nat := (Finset.range 8).filter fun bss => bits.getLsbD bss

def slotAt (t : Table) (i : Nat) : Option (List Byte × Finset Nat) :=
  if t (entryAt i) = 0 then none
  else some (addressBytes fun j => t (entryAt i + j + 2), ownersOf (t (entryAt i + 1)))

/-- `turns` entries from the `i`th on. -/
def slotsFrom (t : Table) (turns i : Nat) : Slots (List Byte) Nat :=
  (List.range' i turns).map (slotAt t)

def slots (t : Table) : Slots (List Byte) Nat := slotsFrom t 32 0

/-- An entry that is not in use has no bit set. -/
def Table.Sound (t : Table) : Prop := ∀ i < 32, t (entryAt i) = 0 → t (entryAt i + 1) = 0

theorem addressBytes_eq_iff {a b : Buffer} :
    addressBytes a = addressBytes b ↔ ∀ j < 6, a j = b j := by
  simp [addressBytes]

theorem mem_ownersOf {bits : Byte} {bss : Nat} :
    bss ∈ ownersOf bits ↔ bss < 8 ∧ bits.getLsbD bss = true := by
  simp [ownersOf]

theorem getLsbD_mask (bss i : Nat) : (mask bss).getLsbD i = decide (i < 8 ∧ i = bss) := by
  have hone : ∀ n, (1 : Byte).getLsbD n = decide (n = 0) := fun n => by simp
  unfold mask
  rw [BitVec.getLsbD_shiftLeft, hone]
  by_cases h : i = bss
  · subst h
    simp
  · by_cases hlt : i < bss
    · simp [h, hlt]
    · have hne : ¬ i - bss = 0 := by omega
      simp [h, hne]

theorem ownersOf_or (bits : Byte) {bss : Nat} (h : bss < 8) :
    ownersOf (bits ||| mask bss) = insert bss (ownersOf bits) := by
  ext i
  rw [Finset.mem_insert, mem_ownersOf, mem_ownersOf, BitVec.getLsbD_or, getLsbD_mask]
  by_cases heq : i = bss
  · simp [heq, h]
  · simp [heq]

theorem ownersOf_clear (bits : Byte) (bss : Nat) :
    ownersOf (bits &&& ~~~mask bss) = (ownersOf bits).erase bss := by
  ext i
  rw [Finset.mem_erase, mem_ownersOf, mem_ownersOf, BitVec.getLsbD_and, BitVec.getLsbD_not,
    getLsbD_mask]
  by_cases heq : i = bss
  · simp [heq]
  · by_cases hlt : i < 8 <;> simp [heq, hlt]

theorem ownersOf_eq_empty {bits : Byte} : ownersOf bits = ∅ ↔ bits = 0 := by
  constructor
  · intro h
    refine BitVec.eq_of_getLsbD_eq fun i hi => ?_
    have hnot : i ∉ ownersOf bits := by
      rw [h]
      exact Finset.notMem_empty i
    rw [mem_ownersOf, not_and, Bool.not_eq_true] at hnot
    rw [hnot hi]
    exact (BitVec.getLsbD_zero).symm
  · rintro rfl
    ext i
    rw [mem_ownersOf]
    simp

theorem mask_mem_iff {bits : Byte} {bss : Nat} (h : bss < 8) :
    bits &&& mask bss ≠ 0 ↔ bss ∈ ownersOf bits := by
  rw [mem_ownersOf]
  constructor
  · intro hne
    refine ⟨h, ?_⟩
    by_contra hbit
    refine hne (BitVec.eq_of_getLsbD_eq fun i hi => ?_)
    rw [BitVec.getLsbD_and, getLsbD_mask, show (0 : Byte).getLsbD i = false from BitVec.getLsbD_zero]
    by_cases heq : i = bss
    · subst heq
      simp [hbit]
    · simp [heq]
  · rintro ⟨-, hbit⟩ hzero
    have hget : (bits &&& mask bss).getLsbD bss = true := by
      rw [BitVec.getLsbD_and, getLsbD_mask, hbit]
      simp [h]
    rw [hzero] at hget
    simp at hget

/-! ### Changes of one entry -/

/-- The tables are the same outside of the entry. -/
def SameBut (i : Nat) (t t' : Table) : Prop :=
  ∀ p, p < entryAt i ∨ entryAt i + 8 ≤ p → t' p = t p

theorem SameBut.slotAt {i k : Nat} {t t' : Table} (h : SameBut i t t') (hne : k ≠ i) :
    slotAt t' k = slotAt t k := by
  have hsame : ∀ j < 8, t' (entryAt k + j) = t (entryAt k + j) := by
    intro j hj
    refine h _ ?_
    unfold entryAt
    omega
  have haddress : (addressBytes fun j => t' (entryAt k + j + 2)) =
      addressBytes fun j => t (entryAt k + j + 2) :=
    addressBytes_eq_iff.mpr fun j hj => hsame (j + 2) (by omega)
  unfold Wifi.slotAt
  rw [show t' (entryAt k) = t (entryAt k) from hsame 0 (by omega), hsame 1 (by omega), haddress]

theorem sameBut_refl (i : Nat) (t : Table) : SameBut i t t := fun _ _ => rfl

theorem SameBut.store {i j : Nat} {t t' : Table} (h : SameBut i t t') (hj : j < 8) (value : Byte) :
    SameBut i t (t'.store (entryAt i + j) value) := by
  intro p hp
  rw [Table.store_ne (by omega)]
  exact h p hp

theorem SameBut.below {i p : Nat} {t t' : Table} (h : SameBut i t t') (hp : p < 0x100) :
    t' p = t p := h p (.inl (Nat.lt_of_lt_of_le hp (Nat.le_add_right _ _)))

/-- Only the entries are looked at. -/
theorem slotAt_congr {t t' : Table} (h : ∀ p, 0x100 ≤ p → t' p = t p) (i : Nat) :
    slotAt t' i = slotAt t i := by
  have hentry : 0x100 ≤ entryAt i := Nat.le_add_right _ _
  have haddress : (addressBytes fun j => t' (entryAt i + j + 2)) =
      addressBytes fun j => t (entryAt i + j + 2) :=
    addressBytes_eq_iff.mpr fun j _ => h _ (by omega)
  unfold slotAt
  rw [h _ hentry, h _ (by omega), haddress]

/-- An entry in use whose bits are written. -/
theorem slotAt_bits {i : Nat} {t : Table} (h : t (entryAt i) ≠ 0) (bits : Byte) :
    slotAt (t.store (entryAt i + 1) bits) i =
      some (addressBytes fun j => t (entryAt i + j + 2), ownersOf bits) := by
  have haddress : (addressBytes fun j => t.store (entryAt i + 1) bits (entryAt i + j + 2)) =
      addressBytes fun j => t (entryAt i + j + 2) :=
    addressBytes_eq_iff.mpr fun j _ => Table.store_ne (by omega) _ _
  unfold slotAt
  rw [Table.store_ne (by omega), if_neg h, Table.store_same, haddress]

/-- An entry that is written keeps the table sound if it is in use, or has no bit. -/
theorem SameBut.sound {i : Nat} {t t' : Table} (h : SameBut i t t') (hsound : t.Sound)
    (hentry : i < 32 → t' (entryAt i) = 0 → t' (entryAt i + 1) = 0) : t'.Sound := by
  intro k hk hfree
  by_cases heq : k = i
  · subst heq
    exact hentry hk hfree
  · have hout : ∀ j < 8, t' (entryAt k + j) = t (entryAt k + j) := fun j hj => h _ (by
      unfold entryAt
      omega)
    rw [hout 1 (by omega)]
    exact hsound k hk ((hout 0 (by omega)).symm.trans hfree)

/-! ### Resetting -/

section Reset

variable {bss i : Nat} {t : Table}

theorem resetEntry_sameBut (bss : Nat) (t : Table) (i : Nat) : SameBut i t (resetEntry bss t i) := by
  have hbits := (sameBut_refl i t).store (j := 1) (by omega) (t (entryAt i + 1) &&& ~~~mask bss)
  unfold resetEntry
  dsimp only
  split
  · split
    · exact hbits.store (j := 0) (by omega) 0
    · exact hbits
  · exact sameBut_refl i t

/-- A reset releases the slot for its owner. -/
theorem resetEntry_slot (hbss : bss < 8) (t : Table) (i : Nat) :
    slotAt (resetEntry bss t i) i = Slots.releaseSlot bss (slotAt t i) := by
  unfold resetEntry
  dsimp only
  by_cases hused : t (entryAt i) = 0
  · rw [if_neg fun h => h.1 hused]
    unfold slotAt
    rw [if_pos hused]
    rfl
  · have hslot : slotAt t i =
        some (addressBytes fun j => t (entryAt i + j + 2), ownersOf (t (entryAt i + 1))) := if_neg hused
    rw [hslot, Slots.releaseSlot, Table.store_same]
    by_cases howner : bss ∈ ownersOf (t (entryAt i + 1))
    · rw [if_pos ⟨hused, (mask_mem_iff hbss).mpr howner⟩, if_pos howner, ← ownersOf_clear,
        ← slotAt_bits hused]
      by_cases hempty : t (entryAt i + 1) &&& ~~~mask bss = 0
      · rw [if_pos hempty, if_pos (ownersOf_eq_empty.mpr hempty)]
        unfold slotAt
        rw [Table.store_same, if_pos rfl]
      · rw [if_neg hempty, if_neg fun h => hempty (ownersOf_eq_empty.mp h)]
    · rw [if_neg fun h => howner ((mask_mem_iff hbss).mp h.2), if_neg howner, hslot]

theorem resetEntry_sound (h : t.Sound) (bss i : Nat) : (resetEntry bss t i).Sound := by
  refine (resetEntry_sameBut bss t i).sound h ?_
  unfold resetEntry
  dsimp only
  rw [Table.store_same]
  split
  · rename_i hused
    split
    · rename_i hempty
      intro _ _
      rw [Table.store_ne (by omega), Table.store_same, hempty]
    · rw [Table.store_ne (by omega)]
      exact fun _ hfree => absurd hfree hused.1
  · exact h i

/-- The loop over distinct entries. -/
theorem resetAll_slot (hbss : bss < 8) {entries : List Nat} (hnodup : entries.Nodup) (t : Table)
    (k : Nat) : slotAt (entries.foldl (resetEntry bss) t) k =
      if k ∈ entries then Slots.releaseSlot bss (slotAt t k) else slotAt t k := by
  induction entries generalizing t with
  | nil => rfl
  | cons i entries ih =>
      obtain ⟨hi, hnodup⟩ := List.nodup_cons.mp hnodup
      rw [List.foldl_cons, ih hnodup]
      by_cases heq : k = i
      · subst heq
        rw [if_neg hi, if_pos List.mem_cons_self, resetEntry_slot hbss]
      · rw [(resetEntry_sameBut bss t i).slotAt heq]
        simp [heq]

theorem resetAll_sound (h : t.Sound) (bss : Nat) (entries : List Nat) :
    (entries.foldl (resetEntry bss) t).Sound := by
  induction entries generalizing t with
  | nil => exact h
  | cons i entries ih => exact ih (resetEntry_sound h bss i)

theorem resetAll_below (bss : Nat) (entries : List Nat) (t : Table) {p : Nat} (hp : p < 0x100) :
    entries.foldl (resetEntry bss) t p = t p := by
  induction entries generalizing t with
  | nil => rfl
  | cons i entries ih => exact (ih _).trans ((resetEntry_sameBut bss t i).below hp)

/-- What a reset writes below the entries. -/
def cleared (bss : Nat) (t : Table) : Table :=
  (((t.store32 (0xe4 + 4 * bss) 0).store (0xf4 + bss) 0x53).store (0xf8 + bss) 0x42).store
    (0xfc + bss) 0x42

theorem reset_eq (bss : Nat) (t : Table) :
    rxfilterLegacyTableReset bss t = (List.range 32).foldl (resetEntry bss) (cleared bss t) := rfl

theorem cleared_ne {p : Nat} (hcount : p < 0xe4 + 4 * bss ∨ 0xe4 + 4 * bss + 4 ≤ p)
    (h0 : p ≠ 0xf4 + bss) (h1 : p ≠ 0xf8 + bss) (h2 : p ≠ 0xfc + bss) (t : Table) :
    cleared bss t p = t p := by
  unfold cleared
  rw [Table.store_ne h2, Table.store_ne h1, Table.store_ne h0, Table.store32_ne hcount]

theorem cleared_entries (hbss : bss < 4) (t : Table) {p : Nat} (hp : 0x100 ≤ p) :
    cleared bss t p = t p := cleared_ne (by omega) (by omega) (by omega) (by omega) t

/-- **A reset releases what the BSS has.** -/
theorem slots_reset (hbss : bss < 4) (t : Table) :
    slots (rxfilterLegacyTableReset bss t) = Slots.release bss (slots t) := by
  unfold slots slotsFrom Slots.release
  rw [List.map_map, reset_eq]
  refine List.map_congr_left fun k hk => ?_
  have hmem : k ∈ List.range 32 := by
    rw [List.range_eq_range']
    exact hk
  rw [resetAll_slot (by omega) List.nodup_range, if_pos hmem, Function.comp_apply,
    slotAt_congr fun p hp => cleared_entries hbss t hp]

theorem reset_sound (hbss : bss < 4) (h : t.Sound) : (rxfilterLegacyTableReset bss t).Sound := by
  refine resetAll_sound (fun k hk => ?_) bss _
  have hentry : 0x100 ≤ entryAt k := Nat.le_add_right _ _
  change cleared bss t _ = 0 → cleared bss t _ = 0
  rw [cleared_entries hbss t hentry, cleared_entries hbss t (by omega)]
  exact h k hk

end Reset

/-! ### Seeking -/

section Seek

variable {bss : Nat} {address : Buffer}

theorem storeAddress_get (t : Table) (entry : Nat) (address : Buffer) (p : Nat) :
    storeAddress t entry address p =
      if entry + 2 ≤ p ∧ p < entry + 8 then address (p - (entry + 2)) else t p := by
  have hall : ∀ n, (List.range n).foldl (fun t j => t.store (entry + j + 2) (address j)) t p =
      if entry + 2 ≤ p ∧ p < entry + 2 + n then address (p - (entry + 2)) else t p := by
    intro n
    induction n with
    | zero => rw [if_neg (by omega)]; rfl
    | succ n ih =>
        rw [List.range_succ, List.foldl_append, List.foldl_cons, List.foldl_nil]
        by_cases heq : p = entry + n + 2
        · subst heq
          rw [Table.store_same, if_pos (by omega)]
          congr 1
          omega
        · rw [Table.store_ne heq, ih]
          by_cases hin : entry + 2 ≤ p ∧ p < entry + 2 + n
          · rw [if_pos hin, if_pos (by omega)]
          · rw [if_neg hin, if_neg (by omega)]
  exact (hall 6).trans (by rw [show entry + 2 + 6 = entry + 8 by omega])

/-- A free entry with the address for the BSS. -/
def filled (bss : Nat) (address : Buffer) (t : Table) (i : Nat) : Table :=
  ((storeAddress t (entryAt i) address).store (entryAt i + 1)
    (storeAddress t (entryAt i) address (entryAt i + 1) ||| mask bss)).store (entryAt i) 1

theorem filled_sameBut (bss : Nat) (address : Buffer) (t : Table) (i : Nat) :
    SameBut i t (filled bss address t i) := by
  have haddress : SameBut i t (storeAddress t (entryAt i) address) := by
    intro p hp
    rw [storeAddress_get, if_neg (by omega)]
  exact (haddress.store (j := 1) (by omega) _).store (j := 0) (by omega) 1

theorem filled_slot (hbss : bss < 8) {t : Table} {i : Nat} (hclear : t (entryAt i + 1) = 0) :
    slotAt (filled bss address t i) i = some (addressBytes address, {bss}) := by
  have hused : filled bss address t i (entryAt i) = 1 := Table.store_same ..
  have hbits : filled bss address t i (entryAt i + 1) = 0 ||| mask bss := by
    unfold filled
    rw [Table.store_ne (by omega), Table.store_same, storeAddress_get, if_neg (by omega), hclear]
  have haddress : (addressBytes fun j => filled bss address t i (entryAt i + j + 2)) =
      addressBytes address := by
    refine addressBytes_eq_iff.mpr fun j hj => ?_
    unfold filled
    rw [Table.store_ne (by omega), Table.store_ne (by omega), storeAddress_get, if_pos (by omega)]
    congr 1
    omega
  unfold slotAt
  rw [if_neg (by rw [hused]; decide), hbits, haddress, ownersOf_or 0 hbss,
    ownersOf_eq_empty.mpr rfl]
  rfl

/-- What a successful search writes. -/
structure Stored (bss : Nat) (address : Buffer) (t : Table) (turns i : Nat) (t' : Table) : Prop where
  claimed : Slots.claim bss (addressBytes address) (slotsFrom t turns i) = some (slotsFrom t' turns i)
  entry : ∃ k, i ≤ k ∧ k < i + turns ∧ SameBut k t t' ∧ t' (entryAt k) ≠ 0

theorem slotsFrom_succ (t : Table) (turns i : Nat) :
    slotsFrom t (turns + 1) i = slotAt t i :: slotsFrom t turns (i + 1) := rfl

/-- Entries in front of the others. -/
theorem slotsFrom_sameBut {k : Nat} {t t' : Table} (h : SameBut k t t') {turns i : Nat} (hk : k < i) :
    slotsFrom t' turns i = slotsFrom t turns i := by
  refine List.map_congr_left fun n hn => h.slotAt ?_
  have hle := (List.mem_range'_1.mp hn).1
  omega

/-- **A search is a claim.** -/
theorem seekFrom_slots (hbss : bss < 8) (address : Buffer) (t : Table) (turns i : Nat)
    (hsound : ∀ k, i ≤ k → k < i + turns → t (entryAt k) = 0 → t (entryAt k + 1) = 0) :
    seekFrom bss address t turns i = (false, t) ∧
        Slots.claim bss (addressBytes address) (slotsFrom t turns i) = none ∨
      ∃ t', seekFrom bss address t turns i = (true, t') ∧ Stored bss address t turns i t' := by
  induction turns generalizing i with
  | zero => exact .inl ⟨rfl, rfl⟩
  | succ turns ih =>
      rw [slotsFrom_succ]
      unfold seekFrom
      dsimp only
      by_cases hfree : t (entryAt i) = 0
      · -- a free entry
        have hslot : slotAt t i = none := if_pos hfree
        rw [if_neg (not_not.mpr hfree), hslot]
        have hsame := filled_sameBut bss address t i
        refine .inr ⟨filled bss address t i, rfl, ?_, i, Nat.le_refl i, by omega, hsame, ?_⟩
        · rw [slotsFrom_succ, slotsFrom_succ, hslot, slotsFrom_sameBut hsame (Nat.lt_succ_self i),
            filled_slot hbss (hsound i (Nat.le_refl i) (by omega) hfree)]
          rfl
        · rw [filled, Table.store_same]
          decide
      · have hslot : slotAt t i = some (addressBytes fun j => t (entryAt i + j + 2),
            ownersOf (t (entryAt i + 1))) := if_neg hfree
        rw [if_pos hfree, hslot, Slots.claim]
        by_cases heq : (addressBytes fun j => t (entryAt i + j + 2)) = addressBytes address
        · -- the entry of the address
          rw [if_neg fun h => by
            obtain ⟨j, hj, hne⟩ := h
            exact hne (addressBytes_eq_iff.mp heq j hj)]
          have hsame := (sameBut_refl i t).store (j := 1) (by omega)
            (t (entryAt i + 1) ||| mask bss)
          refine .inr ⟨_, rfl, ?_, i, Nat.le_refl i, by omega, hsame, ?_⟩
          · rw [slotsFrom_succ, slotsFrom_succ, hslot, slotsFrom_sameBut hsame (Nat.lt_succ_self i),
              slotAt_bits hfree, ownersOf_or _ hbss, Slots.claim, if_pos heq]
          · rw [Table.store_ne (by omega)]
            exact hfree
        · -- another address
          have hother : ∃ j < 6, t (entryAt i + j + 2) ≠ address j := by
            by_contra hnone
            refine heq (addressBytes_eq_iff.mpr fun j hj => ?_)
            exact not_not.mp fun hne => hnone ⟨j, hj, hne⟩
          rw [if_pos hother, if_neg heq]
          rcases ih (i + 1) fun k hk hlt => hsound k (by omega) (by omega) with
            ⟨hseek, hclaim⟩ | ⟨t', hseek, hclaim, k, hik, hk, hsame, hused⟩
          · exact .inl ⟨hseek, by rw [hclaim]; rfl⟩
          · refine .inr ⟨t', hseek, ?_, k, by omega, by omega, hsame, hused⟩
            rw [slotsFrom_succ, slotsFrom_succ, hsame.slotAt (by omega), hslot, Slots.claim,
              if_neg heq, hclaim]
            rfl

/-- A search that finds no room leaves the table alone. -/
theorem seek_cases (hbss : bss < 4) (address : Buffer) {t : Table} (hsound : t.Sound) :
    rxfilterLegacyTableSeek bss address t = (false, t) ∧
        Slots.claim bss (addressBytes address) (slots t) = none ∨
      ∃ t', rxfilterLegacyTableSeek bss address t = (true, t') ∧ t'.Sound ∧
        Slots.claim bss (addressBytes address) (slots t) = some (slots t') ∧
        ∀ p < 0x100, t' p = t p := by
  have hlt : bss < 8 := by omega
  rcases seekFrom_slots hlt address t 32 0 fun k _ hk => hsound k (by omega) with
    hnone | ⟨t', hseek, hclaim, k, -, hk, hsame, hused⟩
  · exact .inl hnone
  · refine .inr ⟨t', hseek, ?_, hclaim, fun p hp => hsame.below hp⟩
    exact hsame.sound hsound fun _ hfree => absurd hfree hused

end Seek

end Mindone.Wifi
