import Mathlib.Data.List.Nodup
import Mathlib.Data.List.Perm.Basic

/-!
# Mindone.Lib.Keyed

Lists whose entries have keys of their own, as a program keeps records that it finds by address:
changing the entry with a key, and what that does to the entries, to their keys and to **how
many of them have a property**.
-/

namespace Mindone.Lib

variable {α κ : Type} [DecidableEq κ] (key : α → κ)

/-- The list with the entry of a key changed. -/
def modifyKey (k : κ) (f : α → α) (xs : List α) : List α :=
  xs.map fun a => if key a = k then f a else a

variable {key} {k : κ} {f : α → α} {xs : List α}

theorem map_key_modifyKey (hf : ∀ a, key (f a) = key a) :
    (modifyKey key k f xs).map key = xs.map key := by
  unfold modifyKey
  rw [List.map_map]
  refine List.map_congr_left fun a _ => ?_
  show key (if key a = k then f a else a) = key a
  split
  · exact hf a
  · rfl

theorem mem_modifyKey {b : α} (h : b ∈ modifyKey key k f xs) :
    (b ∈ xs ∧ key b ≠ k) ∨ ∃ a ∈ xs, key a = k ∧ b = f a := by
  obtain ⟨a, ha, hb⟩ := List.mem_map.mp h
  split at hb
  · rename_i hk
    exact .inr ⟨a, ha, hk, hb.symm⟩
  · rename_i hk
    subst hb
    exact .inl ⟨ha, hk⟩

theorem mem_modifyKey_self {a : α} (ha : a ∈ xs) (hk : key a = k) :
    f a ∈ modifyKey key k f xs :=
  List.mem_map.mpr ⟨a, ha, if_pos hk⟩

theorem mem_modifyKey_of_ne {a : α} (ha : a ∈ xs) (hk : key a ≠ k) : a ∈ modifyKey key k f xs :=
  List.mem_map.mpr ⟨a, ha, if_neg hk⟩

/-- The entry that is found behind a change was found before. -/
theorem find?_modifyKey [BEq κ] {j : κ} {b : α} (hf : ∀ a, key (f a) = key a)
    (h : (modifyKey key k f xs).find? (fun a => key a == j) = some b) :
    ∃ a, xs.find? (fun a => key a == j) = some a ∧ (b = a ∨ b = f a) := by
  induction xs with
  | nil => cases h
  | cons a rest ih =>
      change List.find? _ ((if key a = k then f a else a) :: modifyKey key k f rest) = some b at h
      have hkey : key (if key a = k then f a else a) = key a := by
        split
        · exact hf a
        · rfl
      cases hj : key a == j with
      | true =>
          rw [List.find?_cons_of_pos (by rw [hkey]; exact hj), Option.some_inj] at h
          refine ⟨a, List.find?_cons_of_pos hj, ?_⟩
          split at h
          · exact .inr h.symm
          · exact .inl h.symm
      | false =>
          rw [List.find?_cons_of_neg (by rw [hkey, hj]; exact Bool.false_ne_true)] at h
          rw [List.find?_cons_of_neg (by rw [hj]; exact Bool.false_ne_true)]
          exact ih h

omit [DecidableEq κ] in
/-- Keys are the entries' own. -/
theorem eq_of_key (hkeys : (xs.map key).Nodup) {a b : α} (ha : a ∈ xs) (hb : b ∈ xs)
    (hab : key a = key b) : a = b := List.inj_on_of_nodup_map hkeys ha hb hab

/-- The entry takes a key that no entry has. -/
theorem nodup_rekey (hkeys : (xs.map key).Nodup)
    (hfresh : ∀ a ∈ xs, key a = k → ∀ b ∈ xs, key b ≠ key (f a)) :
    ((modifyKey key k f xs).map key).Nodup := by
  unfold modifyKey
  rw [List.map_map]
  refine List.Nodup.map_on (fun a ha b hb hab => ?_) hkeys.of_map
  have hab' : key (if key a = k then f a else a) = key (if key b = k then f b else b) := hab
  split at hab'
  · rename_i hka
    split at hab'
    · rename_i hkb
      exact eq_of_key hkeys ha hb (hka.trans hkb.symm)
    · exact absurd hab'.symm (hfresh a ha hka b hb)
  · split at hab'
    · rename_i hkb
      exact absurd hab' (hfresh b hb hkb a ha)
    · exact eq_of_key hkeys ha hb hab'

/-- Two changes of one entry. -/
theorem modifyKey_modifyKey {g : α → α} (hf : ∀ a, key (f a) = key a) :
    modifyKey key k g (modifyKey key k f xs) = modifyKey key k (fun a => g (f a)) xs := by
  unfold modifyKey
  rw [List.map_map]
  refine List.map_congr_left fun a _ => ?_
  show (if key (if key a = k then f a else a) = k then g (if key a = k then f a else a)
    else if key a = k then f a else a) = _
  by_cases hk : key a = k
  · rw [if_pos hk, if_pos ((hf a).trans hk), if_pos hk]
  · rw [if_neg hk, if_neg hk, if_neg hk]

/-- Without an entry of the key nothing changes. -/
theorem modifyKey_of_not_mem (h : k ∉ xs.map key) : modifyKey key k f xs = xs := by
  unfold modifyKey
  conv_rhs => rw [← List.map_id xs]
  refine List.map_congr_left fun a ha => if_neg ?_
  rintro rfl
  exact h (List.mem_map_of_mem ha)

/-- One as a number. -/
def one (b : Bool) : Int := if b then 1 else 0

@[simp] theorem one_true : one true = 1 := rfl

@[simp] theorem one_false : one false = 0 := rfl

theorem one_decide (p : Prop) [Decidable p] : one (decide p) = if p then 1 else 0 := by
  by_cases hp : p
  · rw [decide_eq_true hp, if_pos hp]
    rfl
  · rw [decide_eq_false hp, if_neg hp]
    rfl

/-- How many entries have a property. -/
def countWhere (p : α → Bool) (xs : List α) : Int := xs.countP p

theorem count_nonneg (p : α → Bool) (xs : List α) : 0 ≤ countWhere p xs := Int.natCast_nonneg _

theorem count_cons (p : α → Bool) (a : α) (xs : List α) : countWhere p (a :: xs) = countWhere p xs + one (p a) := by
  unfold countWhere one
  rw [List.countP_cons]
  split <;> simp

theorem count_append (p : α → Bool) (xs ys : List α) :
    countWhere p (xs ++ ys) = countWhere p xs + countWhere p ys := by
  unfold countWhere
  rw [List.countP_append]
  omega

theorem count_perm {p : α → Bool} {xs ys : List α} (h : xs.Perm ys) : countWhere p xs = countWhere p ys := by
  unfold countWhere
  rw [h.countP_eq]

/-- **Changing one entry changes a count by what it changes of the entry.** -/
theorem count_modifyKey (p : α → Bool) (hkeys : (xs.map key).Nodup) {a : α} (ha : a ∈ xs)
    (hk : key a = k) : countWhere p (modifyKey key k f xs) = countWhere p xs - one (p a) + one (p (f a)) := by
  induction xs with
  | nil => cases ha
  | cons b rest ih =>
      rw [List.map_cons, List.nodup_cons] at hkeys
      show countWhere p ((if key b = k then f b else b) :: modifyKey key k f rest) = _
      rw [count_cons, count_cons]
      rcases List.mem_cons.mp ha with rfl | ha
      · rw [if_pos hk, modifyKey_of_not_mem (by rw [← hk]; exact hkeys.1)]
        omega
      · have hne : key b ≠ k := by
          rintro rfl
          exact hkeys.1 (by rw [← hk]; exact List.mem_map_of_mem ha)
        rw [if_neg hne, ih hkeys.2 ha]
        omega

/-- Entries that do not count may go. -/
theorem count_filter {p q : α → Bool} (h : ∀ a ∈ xs, q a = false → p a = false) :
    countWhere p (xs.filter q) = countWhere p xs := by
  unfold countWhere
  rw [List.countP_filter]
  congr 1
  refine List.countP_congr fun a ha => ?_
  rw [Bool.and_eq_true]
  refine ⟨fun hpq => hpq.1, fun hp => ⟨hp, ?_⟩⟩
  by_contra hq
  rw [h a ha ((Bool.not_eq_true _).mp hq)] at hp
  cases hp

/-- An entry that is counted makes the count positive. -/
theorem count_pos {p : α → Bool} {a : α} (ha : a ∈ xs) (hp : p a = true) : 0 < countWhere p xs := by
  unfold countWhere
  have := List.countP_pos_iff.mpr ⟨a, ha, hp⟩
  omega

omit [DecidableEq κ] in
/-- **The last entry takes the place of one that goes**: the other ones stay. -/
theorem swapRemove_perm {i : Nat} (hi : i < xs.length) {last : α} (hlast : xs.getLast? = some last) :
    xs.Perm (xs[i] :: (xs.set i last).dropLast) := by
  obtain ⟨init, rfl⟩ := List.getLast?_eq_some_iff.mp hlast
  rw [List.length_append, List.length_singleton] at hi
  rcases Nat.lt_or_ge i init.length with hlt | hge
  · rw [List.set_append_left _ _ hlt, List.dropLast_concat, List.getElem_append_left hlt]
    calc (init ++ [last]).Perm (last :: init) := List.perm_append_singleton last init
      _ |>.Perm (last :: init[i] :: init.eraseIdx i) :=
        (List.getElem_cons_eraseIdx_perm hlt).symm.cons last
      _ |>.Perm (init[i] :: last :: init.eraseIdx i) := List.Perm.swap _ _ _
      _ |>.Perm (init[i] :: init.set i last) := (List.set_perm_cons_eraseIdx hlt last).symm.cons _
  · obtain rfl : i = init.length := by omega
    rw [List.set_append_right _ _ hge, Nat.sub_self, List.set_cons_zero, List.dropLast_concat,
      List.getElem_concat_length rfl]
    exact List.perm_append_singleton last init

end Mindone.Lib
