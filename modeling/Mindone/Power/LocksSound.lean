import Mindone.Power.Locks

/-!
# Mindone.Power.LocksSound

**The reference counts are right.** `State.Sound` says that the count of a hint is the number of
locks that hold it, and is absent when there are none. The lemmas here say what each small change of
the tables does to that; `releaseLocked` and `holdHints` are loops over them, and their
specifications (`releaseLocked_ends`, `holdHints_ends`) say which locks are behind.
-/

namespace Mindone.Power

open Mindone.Lib

/-- How many locks hold the hint. -/
def holders (locks : List Entry) (hint : String) : Nat := locks.countP (hint ∈ ·.hints)

/-- The invariant of the tables. -/
structure State.Sound (s : State) : Prop where
  keys : (s.locks.map Entry.handle).Nodup
  range : ∀ e ∈ s.locks, 0 < e.handle ∧ e.handle ≤ s.next
  next : 0 ≤ s.next
  hints : ∀ e ∈ s.locks, e.hints.Nodup
  references : ∀ hint, s.references.lookup hint =
    if holders s.locks hint = 0 then none else some (holders s.locks hint)
  bound : ∀ e ∈ s.locks, e.untilNs ≤ s.time + int32Max * nanosPerMs
  cut : ∀ e ∈ s.locks, e.cut = true → e.untilNs ≤ s.time

/-! ### What stays -/

/-- The callbacks are the same, and time and the handles do not go back. -/
structure Steady (s s' : State) : Prop where
  next : s.next ≤ s'.next
  callbacks : s'.callbacks = s.callbacks
  cookie : s'.cookie = s.cookie
  time : s.time ≤ s'.time
  failed : s.failed = true → s'.failed = true

/-- The tables are the same as well. -/
structure Tables (s s' : State) : Prop extends Steady s s' where
  locks : s'.locks = s.locks
  references : s'.references = s.references

/-- The connection is the same. -/
structure Kin (s s' : State) : Prop extends Steady s s' where
  backend : s'.backend = s.backend

/-- The tables and the connection are the same. -/
structure Calm (s s' : State) : Prop extends Kin s s', Tables s s'

/-- And the boosts. -/
structure Quiet (s s' : State) : Prop extends Calm s s' where
  boosts : s'.boosts = s.boosts

namespace Steady

variable {s t u : State}

theorem refl (s : State) : Steady s s := ⟨Int.le_refl _, rfl, rfl, Nat.le_refl _, id⟩

theorem trans (h : Steady s t) (h' : Steady t u) : Steady s u :=
  ⟨h.next.trans h'.next, h'.callbacks.trans h.callbacks, h'.cookie.trans h.cookie,
    h.time.trans h'.time, fun hf => h'.failed (h.failed hf)⟩

theorem not_failed (h : Steady s t) (ht : t.failed = false) : s.failed = false := by
  cases hs : s.failed with
  | false => rfl
  | true => exact absurd (ht.symm.trans (h.failed hs)) nofun

end Steady

theorem Tables.refl (s : State) : Tables s s := ⟨Steady.refl s, rfl, rfl⟩

theorem Tables.trans {s t u : State} (h : Tables s t) (h' : Tables t u) : Tables s u :=
  ⟨h.toSteady.trans h'.toSteady, h'.locks.trans h.locks, h'.references.trans h.references⟩

theorem Kin.refl (s : State) : Kin s s := ⟨Steady.refl s, rfl⟩

theorem Kin.trans {s t u : State} (h : Kin s t) (h' : Kin t u) : Kin s u :=
  ⟨h.toSteady.trans h'.toSteady, h'.backend.trans h.backend⟩

theorem Calm.of {s s' : State} (h : Kin s s') (hlocks : s'.locks = s.locks)
    (hreferences : s'.references = s.references) : Calm s s' := ⟨h, hlocks, hreferences⟩

theorem Calm.refl (s : State) : Calm s s := .of (Kin.refl s) rfl rfl

theorem Calm.trans {s t u : State} (h : Calm s t) (h' : Calm t u) : Calm s u :=
  .of (h.toKin.trans h'.toKin) (h'.locks.trans h.locks) (h'.references.trans h.references)

theorem Quiet.refl (s : State) : Quiet s s := ⟨Calm.refl s, rfl⟩

theorem Quiet.trans {s t u : State} (h : Quiet s t) (h' : Quiet t u) : Quiet s u :=
  ⟨h.toCalm.trans h'.toCalm, h'.boosts.trans h.boosts⟩

theorem Tables.sound {s s' : State} (h : Tables s s') (hs : s.Sound) : s'.Sound where
  keys := by rw [h.locks]; exact hs.keys
  range := by
    rw [h.locks]
    exact fun e he => ⟨(hs.range e he).1, (hs.range e he).2.trans h.next⟩
  next := hs.next.trans h.next
  hints := by rw [h.locks]; exact hs.hints
  references := by rw [h.references, h.locks]; exact hs.references
  bound := by
    rw [h.locks]
    exact fun e he => (hs.bound e he).trans (Nat.add_le_add_right h.time _)
  cut := by
    rw [h.locks]
    exact fun e he hcut => (hs.cut e he hcut).trans h.time

/-! ### The clock and the backend -/

section Calls

variable {s : State} {E : Errno → State → Prop}

theorem now_ends : Ends now s (fun t s' => Quiet s s' ∧ s'.time = t) E := by
  unfold now
  rw [ends_bind, ends_get, ends_bind, ends_set, ends_pure]
  exact ⟨⟨.of ⟨⟨Int.le_refl _, rfl, rfl, Nat.le_add_right _ _, id⟩, rfl⟩ rfl rfl, rfl⟩, rfl⟩

theorem backendCall_ends : Ends backendCall s
    (fun reply s' => Quiet s s' ∧ s'.time = s.time ∧ (reply = .failed → s'.failed = true)) E := by
  unfold backendCall
  rw [ends_bind, ends_get, ends_bind, ends_set, ends_pure]
  refine ⟨⟨.of ⟨⟨Int.le_refl _, rfl, rfl, Nat.le_refl _, fun hf => ?_⟩, rfl⟩ rfl rfl, rfl⟩, rfl,
    fun hreply => ?_⟩
  · exact Bool.or_eq_true_iff.mpr (.inl hf)
  · exact Bool.or_eq_true_iff.mpr (.inr (decide_eq_true hreply))

theorem connectCall_ends : Ends connectCall s (fun _ s' => Quiet s s') E := by
  unfold connectCall
  rw [ends_bind, ends_get, ends_bind, ends_set, ends_pure]
  exact ⟨.of ⟨⟨Int.le_refl _, rfl, rfl, Nat.le_refl _, id⟩, rfl⟩ rfl rfl, rfl⟩

theorem setBoost_ends (hint : String) (boost : Boost) :
    Ends (setBoost hint boost) s (fun ok s' => Calm s s' ∧ s'.time = s.time ∧
      (ok = true → s'.boosts = Function.update s.boosts hint (some boost)) ∧
      (ok = false → s'.failed = true ∧ s'.boosts = s.boosts)) E := by
  unfold setBoost
  rw [ends_bind]
  refine backendCall_ends.mono (fun reply s' h => ?_) fun _ _ h => h
  obtain ⟨hquiet, htime, hfailed⟩ := h
  split
  · rename_i hreply
    rw [ends_pure]
    exact ⟨hquiet.toCalm, htime, nofun, fun _ => ⟨hfailed hreply, hquiet.boosts⟩⟩
  · rw [ends_bind, ends_modify, ends_pure]
    refine ⟨.of ⟨⟨hquiet.next, hquiet.callbacks, hquiet.cookie, hquiet.time, hquiet.failed⟩,
      hquiet.backend⟩ hquiet.locks hquiet.references, htime, fun _ => ?_, nofun⟩
    rw [hquiet.boosts]

/-- What `apply` sends when it succeeds. -/
theorem apply_ends (hint : String) (untilNs : Nat) :
    Ends (apply hint untilNs) s (fun ok s' => Calm s s' ∧
      (ok = true → s'.boosts = Function.update s.boosts hint
        (some (.lasting s'.time (ceilMs (latest s.locks hint untilNs) s'.time)))) ∧
      (ok = false → s'.failed = true ∧ s'.boosts = s.boosts)) E := by
  unfold apply
  rw [ends_bind, ends_get, ends_bind]
  refine now_ends.mono (fun t s₁ h₁ => ?_) fun _ _ h => h
  obtain ⟨hquiet, htime₁⟩ := h₁
  refine (setBoost_ends hint _).mono (fun ok s₂ h₂ => ?_) fun _ _ h => h
  obtain ⟨hcalm₂, htime₂, hok, hnot⟩ := h₂
  refine ⟨hquiet.toCalm.trans hcalm₂, fun h => ?_, fun h => ?_⟩
  · rw [hok h, hquiet.boosts, htime₂, htime₁]
  · exact ⟨(hnot h).1, (hnot h).2.trans hquiet.boosts⟩

end Calls

/-! ### Counting -/

section Counting

variable {locks : List Entry} {e : Entry} {hint other : String}

theorem holders_modify {f : Entry → Entry} (hkeys : (locks.map Entry.handle).Nodup)
    (he : e ∈ locks) (hint : String) :
    (holders (modifyKey Entry.handle e.handle f locks) hint : Int) =
      holders locks hint - one (decide (hint ∈ e.hints)) + one (decide (hint ∈ (f e).hints)) :=
  count_modifyKey (fun e : Entry => decide (hint ∈ e.hints)) hkeys he rfl

theorem holders_pos (he : e ∈ locks) (hmem : hint ∈ e.hints) : 0 < holders locks hint :=
  List.countP_pos_iff.mpr ⟨e, he, decide_eq_true hmem⟩

theorem holders_append (locks : List Entry) (e : Entry) (hint : String) :
    holders (locks ++ [e]) hint = holders locks hint + if hint ∈ e.hints then 1 else 0 := by
  unfold holders
  rw [List.countP_append, List.countP_singleton]
  simp only [decide_eq_true_eq]

/-- An entry without hints is not counted. -/
theorem holders_filter {handle : Int} (h : ∀ e ∈ locks, e.handle = handle → e.hints = [])
    (hint : String) : holders (locks.filter (·.handle ≠ handle)) hint = holders locks hint := by
  refine Int.ofNat_inj.mp (count_filter fun e he hq => ?_)
  rw [decide_eq_false_iff_not, not_not] at hq
  rw [h e he hq]
  exact decide_eq_false List.not_mem_nil

theorem mem_insertHint {hints : List String} :
    other ∈ insertHint hint hints ↔ other = hint ∨ other ∈ hints := by
  unfold insertHint
  split
  · rename_i hmem
    exact ⟨.inr, fun h => h.elim (fun heq => heq ▸ hmem) id⟩
  · rw [List.mem_orderedInsert]

theorem nodup_insertHint {hints : List String} (h : hints.Nodup) :
    (insertHint hint hints).Nodup := by
  unfold insertHint
  split
  · exact h
  · rename_i hmem
    exact (List.perm_orderedInsert _ hint hints).nodup_iff.mpr (List.nodup_cons.mpr ⟨hmem, h⟩)

end Counting

/-! ### Entries -/

section Entries

variable {s : State} {e b : Entry} {f : Entry → Entry} {hint : String} {handle : Int}

/-- The entries behind a change of one. -/
theorem mem_modify {locks : List Entry} (hkeys : (locks.map Entry.handle).Nodup) (he : e ∈ locks) :
    b ∈ modifyKey Entry.handle e.handle f locks ↔
      (b ∈ locks ∧ b.handle ≠ e.handle) ∨ b = f e := by
  refine ⟨fun h => ?_, ?_⟩
  · rcases mem_modifyKey h with h | ⟨a, ha, hk, rfl⟩
    · exact .inl h
    · rw [eq_of_key hkeys ha he hk]
      exact .inr rfl
  · rintro (⟨hb, hne⟩ | rfl)
    · exact mem_modifyKey_of_ne hb hne
    · exact mem_modifyKey_self he rfl

theorem State.Sound.find (hs : s.Sound) (he : e ∈ s.locks) : s.find e.handle = some e := by
  unfold State.find
  cases hfind : s.locks.find? fun a => a.handle == e.handle with
  | none => exact absurd (beq_self_eq_true e.handle) (List.find?_eq_none.mp hfind e he)
  | some a =>
      have hfound : (a.handle == e.handle) = true :=
        List.find?_some (p := fun a : Entry => a.handle == e.handle) hfind
      have hhandle := beq_iff_eq.mp hfound
      rw [eq_of_key hs.keys (List.mem_of_find?_eq_some hfind) he hhandle]

theorem mem_of_find (h : s.find handle = some e) : e ∈ s.locks ∧ e.handle = handle := by
  have hfound : (e.handle == handle) = true :=
    List.find?_some (p := fun a : Entry => a.handle == handle) h
  exact ⟨List.mem_of_find?_eq_some h, beq_iff_eq.mp hfound⟩

theorem find_eq_none (h : s.find handle = none) : ∀ e ∈ s.locks, e.handle ≠ handle :=
  fun e he heq => List.find?_eq_none.mp h e he (beq_iff_eq.mpr heq)

theorem State.Sound.hintsOf (hs : s.Sound) (he : e ∈ s.locks) : s.hintsOf e.handle = e.hints := by
  unfold State.hintsOf
  rw [hs.find he]
  rfl

/-- A change of one entry, with the references that belong to it. -/
theorem State.Sound.modify (hs : s.Sound) (he : e ∈ s.locks) (hkey : ∀ a, (f a).handle = a.handle)
    (hhints : (f e).hints.Nodup) (hbound : (f e).untilNs ≤ s.time + int32Max * nanosPerMs)
    (hcut : (f e).cut = true → (f e).untilNs ≤ s.time) {references : AList fun _ : String => Nat}
    (hreferences : ∀ hint, references.lookup hint =
      if holders (modifyKey Entry.handle e.handle f s.locks) hint = 0 then none
      else some (holders (modifyKey Entry.handle e.handle f s.locks) hint)) :
    State.Sound { s.modifyLock e.handle f with references := references } where
  keys := by
    show ((modifyKey Entry.handle e.handle f s.locks).map Entry.handle).Nodup
    rw [map_key_modifyKey hkey]
    exact hs.keys
  range := by
    intro a ha
    rcases (mem_modify hs.keys he).mp ha with ⟨ha, -⟩ | rfl
    · exact hs.range a ha
    · rw [hkey]
      exact hs.range e he
  next := hs.next
  hints := by
    intro a ha
    rcases (mem_modify hs.keys he).mp ha with ⟨ha, -⟩ | rfl
    · exact hs.hints a ha
    · exact hhints
  references := hreferences
  bound := by
    intro a ha
    rcases (mem_modify hs.keys he).mp ha with ⟨ha, -⟩ | rfl
    · exact hs.bound a ha
    · exact hbound
  cut := by
    intro a ha
    rcases (mem_modify hs.keys he).mp ha with ⟨ha, -⟩ | rfl
    · exact hs.cut a ha
    · exact hcut

/-- The references are those of the same holders. -/
theorem State.Sound.references_same (hs : s.Sound) (he : e ∈ s.locks)
    (hsame : ∀ hint, hint ∈ (f e).hints ↔ hint ∈ e.hints) (hint : String) :
    s.references.lookup hint =
      if holders (modifyKey Entry.handle e.handle f s.locks) hint = 0 then none
      else some (holders (modifyKey Entry.handle e.handle f s.locks) hint) := by
  have hcount := @holders_modify _ e f hs.keys he hint
  rw [decide_eq_decide.mpr (hsame hint), Int.sub_add_cancel, Int.ofNat_inj] at hcount
  rw [hcount]
  exact hs.references hint

/-- A lock ends. -/
theorem State.Sound.shorten (hs : s.Sound) (he : e ∈ s.locks) {time : Nat} (htime : time ≤ s.time) :
    (s.shorten e.handle time).Sound :=
  hs.modify (f := ({ · with untilNs := time })) he (fun _ => rfl) (hs.hints e he)
    (htime.trans (Nat.le_add_right _ _)) (fun _ => htime) (hs.references_same he fun _ => Iff.rfl)

/-- A hint goes from a lock that holds it, with its reference. -/
theorem State.Sound.dropHint (hs : s.Sound) (he : e ∈ s.locks) (hmem : hint ∈ e.hints)
    (references : AList fun _ : String => Nat)
    (hhint : references.lookup hint =
      if holders s.locks hint = 1 then none else some (holders s.locks hint - 1))
    (hother : ∀ other, other ≠ hint → references.lookup other = s.references.lookup other) :
    State.Sound ({ s with references := references }.dropHint e.handle hint) := by
  refine hs.modify (f := fun e => { e with hints := e.hints.filter (· ≠ hint) }) he
    (fun _ => rfl) ((hs.hints e he).filter _) (hs.bound e he) (hs.cut e he) fun other => ?_
  have hcount := @holders_modify _ e (fun e => { e with hints := e.hints.filter (· ≠ hint) })
    hs.keys he other
  by_cases heq : other = hint
  · subst heq
    have hpos := holders_pos he hmem
    rw [decide_eq_true hmem, decide_eq_false (by simp)] at hcount
    simp only [one_true, one_false] at hcount
    rw [hhint]
    split
    · rw [if_pos (by omega)]
    · rw [if_neg (by omega)]
      exact congrArg some (by omega)
  · have hsame : other ∈ e.hints.filter (· ≠ hint) ↔ other ∈ e.hints := by
      rw [List.mem_filter]
      exact and_iff_left (decide_eq_true heq)
    rw [decide_eq_decide.mpr hsame, Int.sub_add_cancel, Int.ofNat_inj] at hcount
    rw [hother other heq, hcount]
    exact hs.references other

/-- A lock takes a hint that it does not hold yet. -/
theorem State.Sound.addHint (hs : s.Sound) (he : e ∈ s.locks) (hmem : hint ∉ e.hints) :
    (s.addHint e.handle hint).Sound := by
  refine hs.modify (f := fun e => { e with hints := insertHint hint e.hints }) he
    (fun _ => rfl) (nodup_insertHint (hs.hints e he)) (hs.bound e he) (hs.cut e he)
    fun other => ?_
  have hcount := @holders_modify _ e (fun e => { e with hints := insertHint hint e.hints })
    hs.keys he other
  by_cases heq : other = hint
  · subst heq
    rw [decide_eq_false hmem, decide_eq_true (mem_insertHint.mpr (.inl rfl))] at hcount
    simp only [one_true, one_false] at hcount
    rw [AList.lookup_insert, if_neg (by omega), hs.references]
    refine congrArg some ?_
    split
    · show 0 + 1 = _
      omega
    · show holders s.locks other + 1 = _
      omega
  · have hsame : other ∈ insertHint hint e.hints ↔ other ∈ e.hints := by
      rw [mem_insertHint]
      exact or_iff_right heq
    rw [decide_eq_decide.mpr hsame, Int.sub_add_cancel, Int.ofNat_inj] at hcount
    rw [AList.lookup_insert_ne heq, hcount]
    exact hs.references other

/-- A lock without hints goes. -/
theorem State.Sound.erase (hs : s.Sound)
    (h : ∀ e ∈ s.locks, e.handle = handle → e.hints = []) :
    State.Sound { s with locks := s.locks.filter (·.handle ≠ handle) } where
  keys := hs.keys.sublist (List.filter_sublist.map _)
  range := fun e he => hs.range e (List.mem_of_mem_filter he)
  next := hs.next
  hints := fun e he => hs.hints e (List.mem_of_mem_filter he)
  references := by
    intro hint
    show s.references.lookup hint =
      if holders (s.locks.filter (·.handle ≠ handle)) hint = 0 then none
      else some (holders (s.locks.filter (·.handle ≠ handle)) hint)
    rw [holders_filter h]
    exact hs.references hint
  bound := fun e he => hs.bound e (List.mem_of_mem_filter he)
  cut := fun e he => hs.cut e (List.mem_of_mem_filter he)

end Entries

end Mindone.Power
