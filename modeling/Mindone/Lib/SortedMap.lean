import Mathlib.Data.List.Basic
import Mathlib.Order.Defs.Unbundled

/-!
# Mindone.Lib.SortedMap

Maps that are given as the list of their entries by increasing key. **A loop over the entries that
passes over all keys but some is a loop over these** (`foldl_eq_foldl_lookup`), each of them looked
up by itself.
-/

namespace Mindone.Lib

variable {α β κ : Type} [DecidableEq κ] {r : κ → κ → Prop}

/-- The entries of some keys, in the order of the keys. -/
def entriesOf (keys : List κ) (entries : List (κ × α)) : List (κ × α) :=
  keys.filterMap fun key => (entries.lookup key).map (key, ·)

/-- The values of some keys. -/
theorem map_snd_entriesOf (keys : List κ) (entries : List (κ × α)) :
    (entriesOf keys entries).map Prod.snd = keys.flatMap fun key => (entries.lookup key).toList := by
  unfold entriesOf
  induction keys with
  | nil => rfl
  | cons key rest ih => cases hkey : entries.lookup key <;> simp [hkey, ih]

theorem lookup_eq_none_of_lt [Std.Irrefl r] {key : κ} {entries : List (κ × α)}
    (h : ∀ entry ∈ entries, r key entry.1) : entries.lookup key = none := by
  rw [List.lookup_eq_none_iff]
  intro entry hentry
  have hne : key ≠ entry.1 := by
    intro heq
    have hlt := h entry hentry
    rw [← heq] at hlt
    exact Std.Irrefl.irrefl key hlt
  simpa using hne

/-- Entries with other keys do not matter. -/
theorem entriesOf_cons_of_ne {keys : List κ} {entry : κ × α} (h : entry.1 ∉ keys)
    (rest : List (κ × α)) : entriesOf keys (entry :: rest) = entriesOf keys rest := by
  obtain ⟨first, value⟩ := entry
  unfold entriesOf
  refine List.filterMap_congr fun key hkey => ?_
  have hne : (key == first) = false := by
    simp only [beq_eq_false_iff_ne, ne_eq]
    rintro rfl
    exact h hkey
  simp only [List.lookup_cons, hne]

/-- The first entry is the first of the keys that are there. -/
theorem entriesOf_cons_of_mem [Std.Irrefl r] [IsTrans κ r] {before after : List κ}
    {entry : κ × α} {rest : List (κ × α)} (hbefore : ∀ key ∈ before, r key entry.1)
    (hafter : ∀ key ∈ after, r entry.1 key) (hrest : ∀ other ∈ rest, r entry.1 other.1) :
    entriesOf (before ++ entry.1 :: after) (entry :: rest) = entry :: entriesOf after rest := by
  unfold entriesOf
  rw [List.filterMap_append, List.filterMap_cons]
  have hnone : before.filterMap (fun key => ((entry :: rest).lookup key).map (key, ·)) = [] := by
    rw [List.filterMap_eq_nil_iff]
    intro key hkey
    rw [lookup_eq_none_of_lt (r := r), Option.map_none]
    intro other hother
    rcases List.mem_cons.mp hother with rfl | hother
    · exact hbefore key hkey
    · exact IsTrans.trans _ _ _ (hbefore key hkey) (hrest other hother)
  have hskip : entriesOf after (entry :: rest) = entriesOf after rest :=
    entriesOf_cons_of_ne (fun hmem => Std.Irrefl.irrefl _ (hafter _ hmem)) rest
  unfold entriesOf at hskip
  rw [hnone, hskip]
  obtain ⟨first, value⟩ := entry
  simp

/-- **A loop that passes over all other keys.** -/
theorem foldl_eq_foldl_lookup [Std.Irrefl r] [IsTrans κ r] {f : β → κ × α → β} {keys : List κ}
    (hkeys : keys.Pairwise r) {entries : List (κ × α)}
    (hsorted : entries.Pairwise fun a b => r a.1 b.1)
    (hskip : ∀ acc, ∀ entry ∈ entries, entry.1 ∉ keys → f acc entry = acc) (acc : β) :
    entries.foldl f acc = (entriesOf keys entries).foldl f acc := by
  induction entries generalizing keys acc with
  | nil => simp [entriesOf]
  | cons entry rest ih =>
      obtain ⟨hfirst, hrest⟩ := List.pairwise_cons.mp hsorted
      by_cases hmem : entry.1 ∈ keys
      · obtain ⟨before, after, rfl⟩ := List.append_of_mem hmem
        obtain ⟨-, hkeys, hbefore⟩ := List.pairwise_append.mp hkeys
        obtain ⟨hafter, hkeys⟩ := List.pairwise_cons.mp hkeys
        rw [entriesOf_cons_of_mem (fun key hkey => hbefore key hkey _ (List.mem_cons_self ..)) hafter
          hfirst]
        refine ih hkeys hrest ?_ (f acc entry)
        intro acc other hother hout
        refine hskip acc other (List.mem_cons_of_mem _ hother) ?_
        -- the keys in front of the entry's are smaller than all the keys that follow
        simp only [List.mem_append, List.mem_cons, not_or]
        have hlt := hfirst other hother
        refine ⟨fun hin => ?_, fun heq => ?_, hout⟩
        · exact Std.Irrefl.irrefl _ (IsTrans.trans _ _ _ hlt (hbefore _ hin _ (List.mem_cons_self ..)))
        · rw [heq] at hlt
          exact Std.Irrefl.irrefl _ hlt
      · rw [entriesOf_cons_of_ne hmem, List.foldl_cons, hskip acc entry (List.mem_cons_self ..) hmem]
        exact ih hkeys hrest (fun acc other hother => hskip acc other (List.mem_cons_of_mem _ hother)) acc

end Mindone.Lib
