import Mindone.Power.LocksBoosts

/-!
# Mindone.Power.LocksRelease

`releaseLocked` gives back the hints of a lock one by one. **Where the backend fails, the lock keeps
the hint** and is tried again later; otherwise it goes, and each hint that it held has the boost that
the remaining locks ask for (`releaseLocked_ends`).
-/

namespace Mindone.Power

open Mindone.Lib

section Hint

variable {s s' : State} {e : Entry} {hint other : String} {E : Errno → State → Prop}

/-! ### One hint -/

/-- The entries behind a hint that goes. -/
theorem mem_dropHint {b : Entry} (hs : s.Sound) (he : e ∈ s.locks) :
    b ∈ (s.dropHint e.handle hint).locks ↔ (b ∈ s.locks ∧ b.handle ≠ e.handle) ∨
      b = { e with hints := e.hints.filter (· ≠ hint) } := mem_modify hs.keys he

theorem heldUntil_dropHint_of_ne (hs : s.Sound) (he : e ∈ s.locks) (hne : other ≠ hint)
    (untilNs : Nat) :
    (s.dropHint e.handle hint).HeldUntil other untilNs ↔ s.HeldUntil other untilNs :=
  heldUntil_modify (f := fun e => { e with hints := e.hints.filter (· ≠ hint) }) hs he
    (List.mem_filter.trans (and_iff_left (decide_eq_true hne))) (fun _ => rfl) untilNs

/-- What a turn of `releaseLocked` leaves. -/
structure HintReleased (s : State) (e : Entry) (hint : String) (s' : State) : Prop where
  kin : Kin s s'
  sound : s'.Sound
  boosts : ∀ other, other ≠ hint → s'.boosts other = s.boosts other
  silent : s.backend.ext = false → s'.boosts = s.boosts
  locks : (s'.locks = s.locks ∧ (s.backend.ext = true → s'.failed = true)) ∨
    (s'.locks = (s.dropHint e.handle hint).locks ∧ s'.Boosted hint)

theorem Calm.hintReleased (h : Calm s s') (hs : s.Sound) (hboosts : s'.boosts = s.boosts)
    (hfailed : s.backend.ext = true → s'.failed = true) : HintReleased s e hint s' :=
  ⟨h.toKin, h.toTables.sound hs, fun _ _ => by rw [hboosts], fun _ => hboosts, .inl ⟨h.locks, hfailed⟩⟩

/-- The only lock that holds the hint gives it back: the boost is off. -/
theorem hintReleased_off (hs : s.Sound) (hcalm : Calm s s') (he : e ∈ s.locks)
    (hmem : hint ∈ e.hints) (hext : s.backend.ext = true)
    (hone : s.references.lookup hint = some 1)
    (hboosts : s'.boosts = Function.update s.boosts hint (some .off)) :
    HintReleased s e hint
      ({ s' with references := s'.references.erase hint }.dropHint e.handle hint) := by
  have hs' := hcalm.toTables.sound hs
  have he' : e ∈ s'.locks := by rw [hcalm.locks]; exact he
  have hcount : holders s'.locks hint = 1 := by
    rw [hs.references] at hone
    rw [hcalm.locks]
    split at hone
    · cases hone
    · exact Option.some_inj.mp hone
  have hsound := hs'.dropHint he' hmem (s'.references.erase hint)
    (by rw [if_pos hcount]; exact AList.lookup_erase _ _)
    (fun other hne => AList.lookup_erase_ne hne)
  refine ⟨⟨⟨hcalm.next, hcalm.callbacks, hcalm.cookie, hcalm.time, hcalm.failed⟩, hcalm.backend⟩,
    hsound, fun other hne => ?_, fun h => absurd (hext.symm.trans h) nofun,
    .inr ⟨?_, ?_, fun _ => .inr ?_⟩⟩
  · show s'.boosts other = _
    rw [hboosts, Function.update_of_ne hne]
  · show modifyKey _ _ _ s'.locks = modifyKey _ _ _ s.locks
    rw [hcalm.locks]
  · rintro untilNs - ⟨b, hb, hmem', -⟩ -
    -- nobody holds it any more
    have hpos := holders_pos hb hmem'
    have hlookup := hsound.references hint
    rw [if_neg (Nat.ne_of_gt hpos)] at hlookup
    exact absurd ((AList.lookup_erase _ _).symm.trans hlookup) nofun
  · show s'.boosts hint = _
    rw [hboosts, Function.update_self]

/-- Other locks hold the hint: the boost is what they ask for. -/
theorem hintReleased_apply {time : Nat} (hs : s.Sound) (hcalm : Calm s s') (he : e ∈ s.locks)
    (hended : e.untilNs ≤ s.time) (hmem : hint ∈ e.hints) (hext : s.backend.ext = true)
    (hmany : s.references.lookup hint ≠ some 1) (htime : time ≤ s'.time)
    (hboosts : s'.boosts = Function.update s.boosts hint
      (some (.lasting s'.time (ceilMs (latest s.locks hint time) s'.time)))) :
    HintReleased s e hint
      ({ s' with references :=
          s'.references.insert hint ((s'.references.lookup hint).getD 0 - 1) }.dropHint
        e.handle hint) := by
  have hs' := hcalm.toTables.sound hs
  have he' : e ∈ s'.locks := by rw [hcalm.locks]; exact he
  have hpos := holders_pos he hmem
  have hlookup : s.references.lookup hint = some (holders s.locks hint) := by
    rw [hs.references, if_neg (Nat.ne_of_gt hpos)]
  have hne : holders s.locks hint ≠ 1 := fun hone => hmany (by rw [hlookup, hone])
  have hsound := hs'.dropHint he' hmem
    (s'.references.insert hint ((s'.references.lookup hint).getD 0 - 1))
    (by
      rw [AList.lookup_insert, hcalm.references, hlookup, hcalm.locks, if_neg hne]
      rfl)
    (fun other hother => AList.lookup_insert_ne hother)
  refine ⟨⟨⟨hcalm.next, hcalm.callbacks, hcalm.cookie, hcalm.time, hcalm.failed⟩, hcalm.backend⟩,
    hsound, fun other hother => ?_, fun h => absurd (hext.symm.trans h) nofun, .inr ⟨?_, ?_⟩⟩
  · show s'.boosts other = _
    rw [hboosts, Function.update_of_ne hother]
  · show modifyKey _ _ _ s'.locks = modifyKey _ _ _ s.locks
    rw [hcalm.locks]
  · have hboost : s'.boosts hint =
        some (.lasting s'.time (ceilMs (latest s.locks hint time) s'.time)) := by
      rw [hboosts, Function.update_self]
    refine boosted_of_apply hboost (fun b hb hmem' => ?_) (fun a ha hmem' => ?_) (.inl htime)
      hsound ?_
    · rcases (mem_dropHint hs' he').mp hb with ⟨hb, -⟩ | rfl
      · rw [hcalm.locks] at hb
        exact ⟨b, hb, hmem', rfl⟩
      · have hne' : hint ∈ e.hints.filter (· ≠ hint) := hmem'
        have hne : hint ≠ hint := of_decide_eq_true (List.mem_filter.mp hne').2
        exact absurd rfl hne
    · by_cases hk : a.handle = e.handle
      · -- the lock that gives the hint back has expired
        rw [eq_of_key hs.keys ha he hk]
        exact .inl (hended.trans hcalm.time)
      · refine .inr ⟨a, (mem_dropHint hs' he').mpr (.inl ⟨?_, hk⟩), hmem', rfl⟩
        rw [hcalm.locks]
        exact ha
    · have hreferences := hsound.references hint
      rw [show AList.lookup hint (State.references _) = some (holders s.locks hint - 1) by
        show AList.lookup hint (s'.references.insert hint _) = _
        rw [AList.lookup_insert, hcalm.references, hlookup]
        rfl] at hreferences
      split at hreferences
      · cases hreferences
      · rename_i hzero
        obtain ⟨b, hb, hmem'⟩ := List.countP_pos_iff.mp (Nat.pos_of_ne_zero hzero)
        exact ⟨b, hb, of_decide_eq_true hmem'⟩

/-- A turn of `releaseLocked` for a lock that has expired. -/
theorem releaseHint_ends (hs : s.Sound) (he : e ∈ s.locks) (hended : e.untilNs ≤ s.time)
    (hmem : hint ∈ e.hints) :
    Ends (releaseHint e.handle hint) s (fun _ s' => HintReleased s e hint s') E := by
  unfold releaseHint
  rw [ends_bind, ends_get]
  split
  -- The last holder: the boost is taken off.
  · rename_i hone
    split
    · rename_i hext
      rw [ends_pure]
      refine (Calm.refl s).hintReleased hs rfl fun h => ?_
      rw [h] at hext
      cases hext
    · rename_i hnext
      have hext : s.backend.ext = true := by simpa using hnext
      rw [ends_bind]
      refine (setBoost_ends hint .off).mono (fun ok s' h => ?_) fun _ _ h => h
      obtain ⟨hcalm, -, hok, hnot⟩ := h
      split
      · rename_i htrue
        rw [ends_modify]
        -- Only when the backend has answered is the hint dropped from the lock.
        exact hintReleased_off hs hcalm he hmem hext hone (hok htrue)
      · rename_i hfalse
        rw [ends_pure]
        obtain ⟨hfailed, hsame⟩ := hnot (Bool.eq_false_of_not_eq_true hfalse)
        exact hcalm.hintReleased hs hsame fun _ => hfailed
  -- Other holders: the boost is set anew, to end with the last of them.
  · rename_i hmany
    split
    · rename_i hext
      rw [ends_pure]
      refine (Calm.refl s).hintReleased hs rfl fun h => ?_
      rw [h] at hext
      cases hext
    · rename_i hnext
      have hext : s.backend.ext = true := by simpa using hnext
      rw [ends_bind]
      refine now_ends.mono (fun t s₁ h₁ => ?_) fun _ _ h => h
      obtain ⟨hquiet, htime₁⟩ := h₁
      rw [ends_bind]
      refine (apply_ends hint t).mono (fun ok s₂ h₂ => ?_) fun _ _ h => h
      obtain ⟨hcalm₂, hok, hnot⟩ := h₂
      have hcalm := hquiet.toCalm.trans hcalm₂
      split
      · rename_i htrue
        rw [ends_modify]
        refine hintReleased_apply hs hcalm he hended hmem hext hmany (htime₁ ▸ hcalm₂.time) ?_
        rw [hok htrue, hquiet.boosts, hquiet.locks]
      · rename_i hfalse
        rw [ends_pure]
        obtain ⟨hfailed, hsame⟩ := hnot (Bool.eq_false_of_not_eq_true hfalse)
        exact hcalm.hintReleased hs (hsame.trans hquiet.boosts) fun _ => hfailed

end Hint

/-! ### All hints of a lock -/

section Lock

variable {s s' : State} {e : Entry} {E : Errno → State → Prop}

/-- The other locks are the same. -/
def State.OthersSame (s : State) (handle : Int) (s' : State) : Prop :=
  ∀ b : Entry, b.handle ≠ handle → (b ∈ s'.locks ↔ b ∈ s.locks)

/-- Before a turn: the hints that are still to be given back are all there. -/
structure Releasing (s : State) (e : Entry) (rest : List String) (s' : State) : Prop where
  kin : Kin s s'
  sound : s'.Sound
  others : s.OthersSame e.handle s'
  own : ∃ kept, { e with hints := kept } ∈ s'.locks ∧ rest ⊆ kept ∧ kept ⊆ e.hints ∧
    ∀ hint ∈ e.hints, hint ∉ rest → s.backend.ext = true → s'.failed = false →
      hint ∉ kept ∧ s'.Boosted hint
  nodup : rest.Nodup
  boosts : ∀ hint, hint ∉ e.hints → s'.boosts hint = s.boosts hint
  silent : s.backend.ext = false → s'.boosts = s.boosts

/-- What `releaseLocked` leaves of a lock that has expired. -/
structure Released (s : State) (e : Entry) (ok : Bool) (s' : State) : Prop where
  kin : Kin s s'
  sound : s'.Sound
  others : s.OthersSame e.handle s'
  own : ∀ b ∈ s'.locks, b.handle = e.handle →
    ok = false ∧ ∃ kept, kept ⊆ e.hints ∧ b = { e with hints := kept }
  done : s.backend.ext = true → s'.failed = false → ok = true
  boosted : s.backend.ext = true → s'.failed = false → ∀ hint ∈ e.hints, s'.Boosted hint
  boosts : ∀ hint, hint ∉ e.hints → s'.boosts hint = s.boosts hint
  silent : s.backend.ext = false → s'.boosts = s.boosts

/-- One turn. -/
theorem Releasing.step {hint : String} {rest : List String}
    (h : Releasing s e (hint :: rest) s') (hended : e.untilNs ≤ s.time) :
    Ends (releaseHint e.handle hint) s' (fun _ s' => Releasing s e rest s') E := by
  -- The lock is still in the table, with the hints not yet given up.
  obtain ⟨kept, hmem, hrest, hkept, hdone⟩ := h.own
  obtain ⟨hfresh, hnodup⟩ := List.nodup_cons.mp h.nodup
  have hhint : hint ∈ kept := hrest List.mem_cons_self
  have hkept' : { e with hints := kept }.handle = e.handle := rfl
  refine (releaseHint_ends (e := { e with hints := kept }) h.sound hmem
    (hended.trans h.kin.time) hhint).mono (fun _ s₂ h₂ => ?_) fun _ _ h => h
  have hext : s'.backend.ext = s.backend.ext := by rw [h.kin.backend]
  have hfailed : s₂.failed = false → s'.failed = false := h₂.kin.toSteady.not_failed
  have hboosts : ∀ hint, hint ∉ e.hints → s₂.boosts hint = s.boosts hint := fun other hother =>
    (h₂.boosts other fun heq => hother (heq ▸ hkept hhint)).trans (h.boosts other hother)
  have hsilent : s.backend.ext = false → s₂.boosts = s.boosts := fun hnot =>
    (h₂.silent (hext.trans hnot)).trans (h.silent hnot)
  -- Either the backend failed and the hint stays with the lock, or it is dropped.
  rcases h₂.locks with ⟨hlocks, hbad⟩ | ⟨hlocks, hboosted⟩
  · refine ⟨h.kin.trans h₂.kin, h₂.sound, ?_, ⟨kept, ?_, ?_, hkept, ?_⟩, hnodup, hboosts,
      hsilent⟩
    · unfold State.OthersSame
      rw [hlocks]
      exact h.others
    · rw [hlocks]
      exact hmem
    · exact fun other hother => hrest (.tail _ hother)
    · intro other hother hnot hgood hok
      exact absurd (hbad (hext.trans hgood)) (by rw [hok]; exact Bool.false_ne_true)
  · refine ⟨h.kin.trans h₂.kin, h₂.sound, ?_, ⟨kept.filter (· ≠ hint), ?_, ?_, ?_, ?_⟩, hnodup,
      hboosts, hsilent⟩
    · intro b hb
      rw [hlocks, mem_dropHint h.sound hmem]
      refine Iff.trans ?_ (h.others b hb)
      refine ⟨fun hor => hor.elim And.left fun heq => absurd (by rw [heq]) hb, fun hb' => ?_⟩
      exact .inl ⟨hb', hb⟩
    · rw [hlocks, mem_dropHint h.sound hmem]
      exact .inr rfl
    · intro other hother
      refine List.mem_filter.mpr ⟨hrest (.tail _ hother), decide_eq_true ?_⟩
      rintro rfl
      exact hfresh hother
    · exact fun other hother => hkept (List.mem_of_mem_filter hother)
    · intro other hother hnot hgood hok
      -- A hint given up earlier is untouched by the one given up now.
      by_cases heq : other = hint
      · subst heq
        refine ⟨fun hmem' => ?_, hboosted⟩
        have hne : other ≠ other := of_decide_eq_true (List.mem_filter.mp hmem').2
        exact hne rfl
      · have hnot' : other ∉ hint :: rest := fun hmem' =>
          (List.mem_cons.mp hmem').elim heq hnot
        obtain ⟨hgone, hbefore⟩ := hdone other hother hnot' hgood (hfailed hok)
        refine ⟨fun hmem' => hgone (List.mem_of_mem_filter hmem'), ?_⟩
        refine hbefore.same (fun untilNs => ?_) (h₂.boosts other heq) h₂.kin.time
        have hheld : s₂.HeldUntil other untilNs ↔
            (s'.dropHint e.handle hint).HeldUntil other untilNs := by
          unfold State.HeldUntil
          rw [hlocks]
        exact hheld.trans (heldUntil_dropHint_of_ne (e := { e with hints := kept }) h.sound hmem
          heq untilNs)

/-- A lock without hints goes: no hint is held by other locks for that. -/
theorem State.Boosted.erase {handle : Int} {hint : String} (h : s.Boosted hint)
    (hnone : ∀ e ∈ s.locks, e.handle = handle → e.hints = []) :
    State.Boosted { s with locks := s.locks.filter (·.handle ≠ handle) } hint := by
  refine h.same (fun untilNs => ?_) rfl (Nat.le_refl _)
  constructor
  · rintro ⟨b, hb, hmem, rfl⟩
    exact ⟨b, List.mem_of_mem_filter hb, hmem, rfl⟩
  · rintro ⟨b, hb, hmem, rfl⟩
    refine ⟨b, List.mem_filter.mpr ⟨hb, decide_eq_true fun heq => ?_⟩, hmem, rfl⟩
    rw [hnone b hb heq] at hmem
    cases hmem

/-- **`releaseLocked` for a lock that has expired.** -/
theorem releaseLocked_ends (hs : s.Sound) (he : e ∈ s.locks) (hended : e.untilNs ≤ s.time) :
    Ends (releaseLocked e.handle) s (fun ok s' => Released s e ok s') E := by
  unfold releaseLocked
  rw [ends_bind, ends_get, ends_bind, hs.hintsOf he]
  have hstart : Releasing s e e.hints s := ⟨Kin.refl s, hs, fun _ _ => Iff.rfl,
    ⟨e.hints, he, fun _ h => h, fun _ h => h, fun _ hin hout => absurd hin hout⟩, hs.hints e he,
    fun _ _ => rfl, fun _ => rfl⟩
  have hloop : Ends (e.hints.forM (releaseHint e.handle)) s
      (fun _ s₁ => Releasing s e [] s₁) E :=
    ends_forM (fun hint rest s₁ (h : Releasing s e (hint :: rest) s₁) => h.step hended) hstart
  refine hloop.mono (fun _ s₁ h => ?_) fun _ _ h => h
  obtain ⟨kept, hmem, -, hkept, hdone⟩ := h.own
  have hall : s.backend.ext = true → s₁.failed = false → ∀ hint ∈ e.hints, s₁.Boosted hint :=
    fun hext hok hint hin => (hdone hint hin List.not_mem_nil hext hok).2
  have honly : ∀ b ∈ s₁.locks, b.handle = e.handle → b = { e with hints := kept } :=
    fun b hb hk => eq_of_key h.sound.keys hb hmem hk
  rw [ends_bind, ends_get, h.sound.hintsOf hmem]
  split
  · rename_i hsome
    rw [ends_pure]
    refine ⟨h.kin, h.sound, h.others, fun b hb hk => ⟨rfl, kept, hkept, honly b hb hk⟩, ?_, hall,
      h.boosts, h.silent⟩
    intro hext hok
    obtain ⟨hint, hin⟩ := List.exists_mem_of_ne_nil kept hsome
    exact absurd hin (hdone hint (hkept hin) List.not_mem_nil hext hok).1
  · rename_i hnil
    have hempty : ∀ b ∈ s₁.locks, b.handle = e.handle → b.hints = [] := by
      intro b hb hk
      rw [honly b hb hk]
      exact not_not.mp hnil
    rw [ends_bind, ends_set, ends_pure]
    refine ⟨⟨⟨h.kin.next, h.kin.callbacks, h.kin.cookie, h.kin.time, h.kin.failed⟩, h.kin.backend⟩,
      h.sound.erase hempty, ?_, ?_, fun _ _ => rfl, ?_, h.boosts, h.silent⟩
    · intro b hb
      rw [← h.others b hb, List.mem_filter]
      exact and_iff_left (decide_eq_true hb)
    · intro b hb hk
      exact absurd hk (of_decide_eq_true (List.mem_filter.mp hb).2)
    · exact fun hext hok hint hin => (hall hext hok hint hin).erase hempty

/-- The hints of the other locks. -/
theorem Released.heldUntil {ok : Bool} {hint : String} (h : Released s e ok s') (hs : s.Sound)
    (he : e ∈ s.locks) (hhint : hint ∉ e.hints) (untilNs : Nat) :
    s'.HeldUntil hint untilNs ↔ s.HeldUntil hint untilNs := by
  constructor
  · rintro ⟨b, hb, hmem, rfl⟩
    by_cases hk : b.handle = e.handle
    · obtain ⟨-, kept, hkept, rfl⟩ := h.own b hb hk
      exact absurd (hkept hmem) hhint
    · exact ⟨b, (h.others b hk).mp hb, hmem, rfl⟩
  · rintro ⟨b, hb, hmem, rfl⟩
    have hk : b.handle ≠ e.handle := by
      intro hk
      rw [eq_of_key hs.keys hb he hk] at hmem
      exact hhint hmem
    exact ⟨b, (h.others b hk).mpr hb, hmem, rfl⟩

end Lock

end Mindone.Power
