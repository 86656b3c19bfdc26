import Mindone.Power.LocksRelease

/-!
# Mindone.Power.LocksAcquire

`acquire` makes a new lock, lets it hold its hints one by one, and in an update ends the old lock
and gives the new one its handle. **A failure leaves at most locks that have expired**: the new one,
and the old one when its release has failed (`acquire_ends`).
-/

namespace Mindone.Power

open Mindone.Lib

/-! ### The invariant -/

/-- The last boost for a hint is right, or a lock that holds it has been cut short. -/
def State.Known (s : State) (hint : String) : Prop :=
  s.Boosted hint ∨ ∃ e ∈ s.locks, e.cut = true ∧ hint ∈ e.hints

/-- **The invariant of the service.** -/
structure State.Good (s : State) : Prop extends s.Sound where
  known : s.failed = false → s.backend.ext = true → ∀ hint, s.Known hint
  unsent : s.backend.ext = false → ∀ hint, s.boosts hint = none

section Known

variable {s s' : State} {e : Entry} {f : Entry → Entry} {hint : String} {ok : Bool}
  {E : Errno → State → Prop}

theorem State.Known.same (h : s.Known hint)
    (hheld : ∀ untilNs, s'.HeldUntil hint untilNs ↔ s.HeldUntil hint untilNs)
    (hboosts : s'.boosts hint = s.boosts hint) (htime : s.time ≤ s'.time)
    (hcut : ∀ e ∈ s.locks, e.cut = true → hint ∈ e.hints →
      ∃ b ∈ s'.locks, b.cut = true ∧ hint ∈ b.hints) : s'.Known hint := by
  rcases h with h | ⟨e, he, hearly, hmem⟩
  · exact .inl (h.same hheld hboosts htime)
  · exact .inr (hcut e he hearly hmem)

theorem Calm.known (h : Calm s s') (hboosts : s'.boosts hint = s.boosts hint) (hs : s.Known hint) :
    s'.Known hint := by
  refine hs.same (heldUntil_of_locks h.locks) hboosts h.time fun e he hcut hmem => ?_
  rw [h.locks]
  exact ⟨e, he, hcut, hmem⟩

/-- The invariant does not depend on the rest of the state. -/
theorem State.Good.same (hs : s.Good) (hsound : s'.Sound) (hlocks : s'.locks = s.locks)
    (hboosts : s'.boosts = s.boosts) (htime : s.time ≤ s'.time)
    (hfailed : s'.failed = false → s.failed = false)
    (hext : s'.backend.ext = s.backend.ext) : s'.Good where
  toSound := hsound
  known := by
    intro hok hconnected hint
    refine (hs.known (hfailed hok) (hext ▸ hconnected) hint).same (heldUntil_of_locks hlocks)
      (by rw [hboosts]) htime fun e he hcut hmem => ?_
    rw [hlocks]
    exact ⟨e, he, hcut, hmem⟩
  unsent := by
    rw [hext, hboosts]
    exact hs.unsent

theorem Quiet.good (h : Quiet s s') (hs : s.Good) : s'.Good :=
  hs.same (h.toTables.sound hs.toSound) h.locks h.boosts h.time h.toSteady.not_failed
    (by rw [h.backend])

/-- A change of one lock that does not matter for the hint. -/
theorem State.Known.modify (h : s.Known hint) (hs : s.Sound) (he : e ∈ s.locks)
    (hhints : hint ∈ (f e).hints ↔ hint ∈ e.hints)
    (htime : hint ∈ e.hints → (f e).untilNs = e.untilNs) (hcut : e.cut = true → (f e).cut = true) :
    (s.modifyLock e.handle f).Known hint := by
  refine h.same (heldUntil_modify hs he hhints htime) rfl (Nat.le_refl _) fun b hb hearly hmem => ?_
  by_cases hk : b.handle = e.handle
  · obtain rfl := eq_of_key hs.keys hb he hk
    exact ⟨f b, (mem_modify hs.keys he).mpr (.inr rfl), hcut hearly, hhints.mpr hmem⟩
  · exact ⟨b, (mem_modify hs.keys he).mpr (.inl ⟨hb, hk⟩), hearly, hmem⟩

theorem Released.known (h : Released s e ok s') (hs : s.Sound) (he : e ∈ s.locks)
    (hhint : hint ∉ e.hints) (hknown : s.Known hint) : s'.Known hint := by
  refine hknown.same (h.heldUntil hs he hhint) (h.boosts hint hhint) h.kin.time
    fun b hb hearly hmem => ?_
  refine ⟨b, (h.others b fun hk => ?_).mpr hb, hearly, hmem⟩
  rw [eq_of_key hs.keys hb he hk] at hmem
  exact hhint hmem

/-- The hints of the lock need not be known before. -/
theorem Released.good (h : Released s e ok s') (hs : s.Sound) (he : e ∈ s.locks)
    (hknown : s.failed = false → s.backend.ext = true → ∀ hint, hint ∉ e.hints → s.Known hint)
    (hunsent : s.backend.ext = false → ∀ hint, s.boosts hint = none) : s'.Good where
  toSound := h.sound
  known := by
    intro hok hext hint
    rw [h.kin.backend] at hext
    by_cases hmem : hint ∈ e.hints
    · exact .inl (h.boosted hext hok hint hmem)
    · exact h.known hs he hmem (hknown (h.kin.toSteady.not_failed hok) hext hint hmem)
  unsent := by
    intro hext hint
    rw [h.kin.backend] at hext
    rw [h.silent hext]
    exact hunsent hext hint

/-! ### A lock that ends -/

/-- The lock has ended, and what the backend still holds for it is tried again later. -/
structure Ended (s : State) (e : Entry) (ok : Bool) (s' : State) : Prop where
  kin : Kin s s'
  good : s'.Good
  others : s.OthersSame e.handle s'
  own : ∀ b ∈ s'.locks, b.handle = e.handle →
    ok = false ∧ b.owner = e.owner ∧ b.untilNs ≤ s'.time
  done : s.backend.ext = true → s'.failed = false → ok = true

theorem Quiet.othersSame {handle : Int} {t : State} (h : Quiet s t)
    (hothers : t.OthersSame handle s') : s.OthersSame handle s' := by
  unfold State.OthersSame at hothers ⊢
  rw [← h.locks]
  exact hothers

theorem Quiet.ended {t : State} (h : Quiet s t) (hended : Ended t e ok s') : Ended s e ok s' where
  kin := h.toKin.trans hended.kin
  good := hended.good
  others := h.othersSame hended.others
  own := hended.own
  done := by
    rw [← h.backend]
    exact hended.done

/-- `releaseLocked` for a lock whose expiry has just been set. -/
theorem shorten_ends (hs : s.Good) (he : e ∈ s.locks) {time : Nat} (htime : time ≤ s.time) :
    Ends (releaseLocked e.handle) (s.shorten e.handle time)
      (fun ok s' => Ended s e ok s') E := by
  have hsound : (s.shorten e.handle time).Sound := hs.toSound.shorten he htime
  have hmem : { e with untilNs := time } ∈ (s.shorten e.handle time).locks :=
    (mem_modify hs.keys he).mpr (.inr rfl)
  have hkin : Kin s (s.shorten e.handle time) :=
    ⟨⟨Int.le_refl _, rfl, rfl, Nat.le_refl _, id⟩, rfl⟩
  refine (releaseLocked_ends (e := { e with untilNs := time }) hsound hmem htime).mono
    (fun ok s' h => ?_) fun _ _ h => h
  refine ⟨hkin.trans h.kin, ?_, ?_, ?_, h.done⟩
  · refine h.good hsound hmem (fun hok hext hint hhint => ?_) hs.unsent
    exact (hs.known hok hext hint).modify (f := ({ · with untilNs := time })) hs.toSound he Iff.rfl
      (fun hin => absurd hin hhint) id
  · intro b hb
    refine (h.others b hb).trans ((mem_modify hs.keys he).trans ?_)
    refine ⟨fun hor => hor.elim And.left fun heq => absurd (by rw [heq]) hb, fun hb' => ?_⟩
    exact .inl ⟨hb', hb⟩
  · intro b hb hk
    obtain ⟨hfalse, kept, -, rfl⟩ := h.own b hb hk
    exact ⟨hfalse, rfl, htime.trans h.kin.time⟩

theorem abandon_ends (hs : s.Good) (he : e ∈ s.locks) :
    Ends (abandon e.handle) s (fun _ _ => False)
      fun errno s' => errno = .eio ∧ ∃ ok, Ended s e ok s' := by
  unfold abandon
  rw [ends_bind]
  refine now_ends.mono (fun t s₁ h₁ => ?_) fun _ _ h => h
  obtain ⟨hquiet, htime⟩ := h₁
  have he₁ : e ∈ s₁.locks := by rw [hquiet.locks]; exact he
  rw [ends_bind, ends_modify, ends_bind]
  refine (shorten_ends (hquiet.good hs) he₁ (Nat.le_of_eq htime.symm)).mono (fun ok s₂ h₂ => ?_)
    fun _ _ h => h
  rw [ends_throw]
  exact ⟨rfl, ok, hquiet.ended h₂⟩

end Known

/-! ### The new lock -/

section New

variable {s s' : State} {entry : Entry} {hint : String} {hints held : List String}
  {E : Errno → State → Prop}

/-- The new lock holds these hints; the others are as before it. -/
structure Holding (s : State) (entry : Entry) (held : List String) (s' : State) : Prop where
  kin : Kin s s'
  good : s'.Good
  others : s.OthersSame entry.handle s'
  own : ∃ hints, { entry with hints := hints } ∈ s'.locks ∧ ∀ hint, hint ∈ hints ↔ hint ∈ held

/-- The new lock could not be had: what is left of it has expired. -/
structure Lost (s : State) (handle : Int) (s' : State) : Prop where
  kin : Kin s s'
  good : s'.Good
  others : s.OthersSame handle s'
  own : ∀ b ∈ s'.locks, b.handle = handle → b.untilNs ≤ s'.time

theorem State.OthersSame.trans {t : State} {handle : Int} (h : s.OthersSame handle t)
    (h' : t.OthersSame handle s') : s.OthersSame handle s' :=
  fun b hb => (h' b hb).trans (h b hb)

/-- The lock takes a hint, and `apply` has told the backend. -/
theorem Holding.addHint {ok : Bool} {s₁ : State} (h : Holding s entry held s₁)
    (hext : s.backend.ext = true) (hfresh : hint ∉ held)
    (hcalm : Calm (s₁.addHint entry.handle hint) s')
    (hok : ok = true → s'.boosts = Function.update (s₁.addHint entry.handle hint).boosts hint
      (some (.lasting s'.time
        (ceilMs (latest (s₁.addHint entry.handle hint).locks hint entry.untilNs) s'.time))))
    (hnot : ok = false → s'.failed = true) : Holding s entry (held ++ [hint]) s' := by
  obtain ⟨hints, hmem, hheld⟩ := h.own
  have hfresh' : hint ∉ hints := fun hin => hfresh ((hheld hint).mp hin)
  have hsound := h.good.toSound.addHint hmem hfresh'
  have hsound' := hcalm.toTables.sound hsound
  have hlocks : ∀ b, b ∈ s'.locks ↔ (b ∈ s₁.locks ∧ b.handle ≠ entry.handle) ∨
      b = { entry with hints := insertHint hint hints } := by
    rw [hcalm.locks]
    exact fun b => mem_modify (f := fun e => { e with hints := insertHint hint e.hints })
      h.good.keys hmem
  have hnew := (hlocks _).mpr (.inr rfl)
  refine ⟨⟨⟨?_, ?_, ?_, ?_, ?_⟩, hcalm.backend.trans h.kin.backend⟩, ⟨hsound', ?_, ?_⟩, ?_,
    insertHint hint hints, hnew, ?_⟩
  · exact h.kin.next.trans hcalm.next
  · exact hcalm.callbacks.trans h.kin.callbacks
  · exact hcalm.cookie.trans h.kin.cookie
  · exact h.kin.time.trans hcalm.time
  · exact fun hf => hcalm.failed (h.kin.failed hf)
  · intro hgood hext' other
    -- a failure would have been seen
    have htrue : ok = true := by
      cases ok with
      | true => rfl
      | false => exact absurd (hgood.symm.trans (hnot rfl)) nofun
    by_cases heq : other = hint
    · subst heq
      have hin : other ∈ insertHint other hints := mem_insertHint.mpr (.inl rfl)
      exact .inl (boosted_of_apply_same hcalm (hok htrue) (.inr ⟨_, hnew, hin, rfl⟩) hsound'
        ⟨_, hnew, hin⟩)
    · have hother : other ∈ insertHint hint hints ↔ other ∈ hints :=
        mem_insertHint.trans (or_iff_right heq)
      have hknown := (h.good.known (hcalm.toSteady.not_failed hgood) (h.kin.backend ▸ hext)
        other).modify (f := fun e => { e with hints := insertHint hint e.hints }) h.good.toSound
        hmem hother (fun _ => rfl) id
      have hadded : (s₁.addHint entry.handle hint).Known other :=
        hknown.same (fun _ => Iff.rfl) rfl (Nat.le_refl _) fun b hb hcut hin => ⟨b, hb, hcut, hin⟩
      refine hcalm.known ?_ hadded
      rw [hok htrue, Function.update_of_ne heq]
  · intro hno
    have hsame : s'.backend.ext = true := by
      rw [hcalm.backend]
      exact h.kin.backend ▸ hext
    exact absurd (hno.symm.trans hsame) nofun
  · intro b hb
    rw [hlocks b, ← h.others b hb]
    refine ⟨fun hor => hor.elim And.left fun heq => absurd (by rw [heq]) hb, fun hb' => ?_⟩
    exact .inl ⟨hb', hb⟩
  · intro other
    rw [mem_insertHint, hheld, List.mem_append, List.mem_singleton]
    exact Or.comm

/-- The loop that counts and applies the hints. -/
theorem holdHints_ends (hints : List String) (h : Holding s entry held s')
    (hext : s.backend.ext = true) (hnodup : hints.Nodup) (hfresh : ∀ hint ∈ hints, hint ∉ held) :
    Ends (holdHints entry.handle entry.untilNs hints) s'
      (fun _ t => Holding s entry (held ++ hints) t ∧ s'.time ≤ t.time)
      fun errno t => errno = .eio ∧ Lost s entry.handle t := by
  induction hints generalizing held s' with
  | nil =>
      unfold holdHints
      rw [ends_pure, List.append_nil]
      exact ⟨h, Nat.le_refl _⟩
  | cons hint hints ih =>
      obtain ⟨hnot, hnodup⟩ := List.nodup_cons.mp hnodup
      unfold holdHints
      rw [ends_bind, ends_modify, ends_bind]
      refine (apply_ends hint entry.untilNs).mono (fun ok s₂ h₂ => ?_) fun _ _ h => h
      obtain ⟨hcalm, hok, hbad⟩ := h₂
      have hnext := h.addHint hext (hfresh hint List.mem_cons_self) hcalm hok
        fun hfalse => (hbad hfalse).1
      split
      · refine (ih hnext hnodup fun other hother hin => ?_).mono (fun _ t ht => ?_) fun _ _ h => h
        · rcases List.mem_append.mp hin with hin | hin
          · exact hfresh other (.tail _ hother) hin
          · rw [List.mem_singleton.mp hin] at hother
            exact hnot hother
        · rw [List.append_assoc] at ht
          exact ⟨ht.1, hcalm.time.trans ht.2⟩
      · obtain ⟨own, hmem, -⟩ := hnext.own
        refine (abandon_ends (e := { entry with hints := own }) hnext.good hmem).mono
          (fun _ _ h => h.elim) fun errno t ht => ?_
        obtain ⟨herrno, ok', hended⟩ := ht
        exact ⟨herrno, hnext.kin.trans hended.kin, hended.good,
          hnext.others.trans hended.others, fun b hb hk => (hended.own b hb hk).2.2⟩

theorem State.HeldUntil.append_empty (h : s'.locks = s.locks ++ [entry])
    (hempty : entry.hints = []) (untilNs : Nat) :
    s'.HeldUntil hint untilNs ↔ s.HeldUntil hint untilNs := by
  unfold State.HeldUntil
  rw [h]
  constructor
  · rintro ⟨b, hb, hmem, rfl⟩
    rcases List.mem_append.mp hb with hb | hb
    · exact ⟨b, hb, hmem, rfl⟩
    · rw [List.mem_singleton.mp hb, hempty] at hmem
      cases hmem
  · rintro ⟨b, hb, hmem, rfl⟩
    exact ⟨b, List.mem_append_left _ hb, hmem, rfl⟩

/-- **A lock without hints does not matter for the boosts.** -/
theorem Quiet.insert {t : State} (hquiet : Quiet s t) (hs : s.Good) {caller : Caller}
    {durationMs : Nat} (hduration : durationMs ≤ int32Max)
    (hentry : entry = ⟨t.next + 1, caller, t.time + durationMs * nanosPerMs, [], false⟩) :
    Holding s entry [] { t with next := t.next + 1, locks := t.locks ++ [entry] } := by
  have ht := hquiet.good hs
  -- The new handle is above every handle given out so far.
  have hfresh : ∀ b ∈ t.locks, b.handle ≠ entry.handle := by
    intro b hb heq
    have hle := (ht.range b hb).2
    rw [heq, hentry] at hle
    exact absurd hle (Int.not_le.mpr (Int.lt_succ t.next))
  have hempty : entry.hints = [] := by rw [hentry]
  refine ⟨⟨⟨?_, hquiet.callbacks, hquiet.cookie, hquiet.time, hquiet.failed⟩, hquiet.backend⟩,
    ⟨⟨?_, ?_, ?_, ?_, ?_, ?_, ?_⟩, ?_, ht.unsent⟩, ?_, [], ?_, fun _ => Iff.rfl⟩
  · have hnext : t.next ≤ t.next + 1 := Int.le_add_one (Int.le_refl _)
    exact hquiet.next.trans hnext
  · show ((t.locks ++ [entry]).map Entry.handle).Nodup
    rw [List.map_append, List.nodup_append]
    refine ⟨ht.keys, List.nodup_singleton _, fun key hkey other hother => ?_⟩
    obtain ⟨b, hb, rfl⟩ := List.mem_map.mp hkey
    rw [List.map_singleton, List.mem_singleton] at hother
    exact hother ▸ hfresh b hb
  · intro b hb
    show 0 < b.handle ∧ b.handle ≤ t.next + 1
    rcases List.mem_append.mp hb with hb | hb
    · exact ⟨(ht.range b hb).1, Int.le_add_one (ht.range b hb).2⟩
    · rw [List.mem_singleton.mp hb, hentry]
      exact ⟨Int.lt_add_one_iff.mpr ht.next, Int.le_refl _⟩
  · exact Int.le_add_one ht.next
  · intro b hb
    rcases List.mem_append.mp hb with hb | hb
    · exact ht.hints b hb
    · rw [List.mem_singleton.mp hb, hempty]
      exact List.nodup_nil
  · intro other
    -- No hint is held by the new lock, so no reference is added.
    show t.references.lookup other = if holders (t.locks ++ [entry]) other = 0 then none
      else some (holders (t.locks ++ [entry]) other)
    rw [holders_append, hempty, if_neg List.not_mem_nil, Nat.add_zero]
    exact ht.references other
  · intro b hb
    rcases List.mem_append.mp hb with hb | hb
    · exact ht.bound b hb
    · rw [List.mem_singleton.mp hb, hentry]
      exact Nat.add_le_add_left (Nat.mul_le_mul_right _ hduration) _
  · intro b hb hcut
    rcases List.mem_append.mp hb with hb | hb
    · exact ht.cut b hb hcut
    · rw [List.mem_singleton.mp hb, hentry] at hcut
      cases hcut
  -- What is known of a hint stays known: its holders are the same.
  · intro hok hext other
    refine (ht.known hok hext other).same (State.HeldUntil.append_empty rfl hempty) rfl
      (Nat.le_refl _) fun b hb hcut hin => ?_
    exact ⟨b, List.mem_append_left _ hb, hcut, hin⟩
  · intro b hb
    rw [← hquiet.locks]
    refine List.mem_append.trans (or_iff_left fun hin => ?_)
    exact hb (by rw [List.mem_singleton.mp hin])
  · refine List.mem_append_right _ (List.mem_singleton.mpr ?_)
    rw [hentry]

/-! ### What is checked first -/

/-- Only a live lock of the caller can be updated. -/
theorem checkOld_ends (caller : Caller) (handle : Int) :
    Ends (checkOld caller handle) s
      (fun _ s' => Quiet s s' ∧ (0 < handle → ∃ old ∈ s.locks, old.handle = handle ∧
        old.owner = caller ∧ s.time < old.untilNs))
      fun _ s' => Quiet s s' := by
  unfold checkOld
  rw [ends_bind, ends_get]
  split
  · rename_i hle
    rw [ends_pure]
    exact ⟨Quiet.refl s, fun hlt => absurd hlt (Int.not_lt.mpr hle)⟩
  · split
    · rw [ends_throw]
      exact Quiet.refl s
    · rename_i old hfind
      obtain ⟨hmem, hhandle⟩ := mem_of_find hfind
      unfold refuse
      rw [ends_bind]
      split
      · rw [ends_throw]
        exact Quiet.refl s
      · rename_i hown
        rw [ends_pure, ends_bind]
        refine now_ends.mono (fun t s₁ h₁ => ?_) fun _ _ h => h
        obtain ⟨hquiet, htime⟩ := h₁
        split
        · rw [ends_throw]
          exact hquiet
        · rename_i hlate
          rw [ends_pure]
          refine ⟨hquiet, fun _ => ⟨old, hmem, hhandle, not_not.mp hown, ?_⟩⟩
          exact (htime ▸ hquiet.time).trans_lt (Nat.not_le.mp hlate)

theorem checkSupported_ends (hints : List String) :
    Ends (checkSupported hints) s (fun _ s' => Quiet s s') fun _ s' => Quiet s s' := by
  induction hints generalizing s with
  | nil =>
      unfold checkSupported
      rw [ends_pure]
      exact Quiet.refl s
  | cons hint hints ih =>
      unfold checkSupported
      rw [ends_bind]
      refine backendCall_ends.mono (fun reply s₁ h₁ => ?_) fun _ _ h => h
      cases reply with
      | failed => exact (ends_throw _).mpr h₁.1
      | no => exact (ends_throw _).mpr h₁.1
      | ok => exact ih.mono (fun _ _ h => h₁.1.trans h) fun _ _ h => h₁.1.trans h

theorem nodup_resourceHints {resources : List Int} (hnodup : held.Nodup)
    (h : resourceHints resources held = .ok hints) : hints.Nodup := by
  fun_induction resourceHints resources held with
  | case1 _ _ _ _ _ ih => exact ih hnodup h
  | case2 => cases h
  | case3 _ _ _ _ _ _ _ ih => exact ih (nodup_insertHint hnodup) h
  | case4 =>
      obtain rfl := Except.ok.inj h
      exact hnodup

/-- Arguments that pass have no hint twice and an end that fits. -/
theorem checkArguments_ok {duration durationMs : Nat} {resources : List Int}
    {names : List String} (h : checkArguments duration resources names = .ok (hints, durationMs)) :
    hints.Nodup ∧ durationMs ≤ int32Max ∧
      durationMs = if duration = 0 then kMaximumLifetimeMs else duration := by
  unfold checkArguments at h
  split at h
  · cases h
  · rename_i hargs
    have hnames : ∀ names held : List String, held.Nodup →
        (names.foldl (fun set hint => insertHint hint set) held).Nodup := by
      intro names
      induction names with
      | nil => exact fun _ h => h
      | cons name names ih => exact fun held h => ih _ (nodup_insertHint h)
    split at h
    · cases h
    · cases h
    · rename_i hfound
      injection h with h
      injection h with hhints hms
      subst hhints hms
      refine ⟨nodup_resourceHints (hnames names [] List.nodup_nil) hfound, ?_, rfl⟩
      split
      · decide
      · exact Nat.not_lt.mp fun hlt => hargs (.inl hlt)

end New

/-! ### The call -/

section Acquire

variable {s s' : State} {entry old : Entry} {hints : List String} {E : Errno → State → Prop}

/-- No lock has gone, and what is new has expired. -/
structure Spared (s s' : State) : Prop where
  kin : Kin s s'
  good : s'.Good
  kept : ∀ b ∈ s.locks, b ∈ s'.locks
  new : ∀ b ∈ s'.locks, b ∈ s.locks ∨ (s.next < b.handle ∧ b.untilNs ≤ s'.time)

theorem Quiet.spared (h : Quiet s s') (hs : s.Good) : Spared s s' := by
  refine ⟨h.toKin, h.good hs, ?_, ?_⟩
  · rw [h.locks]
    exact fun _ hb => hb
  · rw [h.locks]
    exact fun _ hb => .inl hb

theorem Lost.spared {handle : Int} (h : Lost s handle s') (hs : s.Good) (hlt : s.next < handle) :
    Spared s s' := by
  refine ⟨h.kin, h.good, fun b hb => (h.others b fun hk => ?_).mpr hb, fun b hb => ?_⟩
  · exact absurd (hk ▸ (hs.range b hb).2) (Int.not_le.mpr hlt)
  · by_cases hk : b.handle = handle
    · exact .inr ⟨hk ▸ hlt, h.own b hb hk⟩
    · exact .inl ((h.others b hk).mp hb)

/-- The new lock, before it takes the place of an old one. -/
structure Entered (s : State) (caller : Caller) (handle : Int) (hints : List String)
    (durationMs : Nat) (k : Int) (s' : State) : Prop where
  entry : ∃ entry, Holding s entry hints s' ∧ entry.handle = k ∧ entry.owner = caller ∧
    s.time + durationMs * nanosPerMs ≤ entry.untilNs ∧
    entry.untilNs ≤ s'.time + durationMs * nanosPerMs
  new : s.next < k
  ext : s.backend.ext = true
  old : 0 < handle → ∃ old ∈ s.locks, old.handle = handle ∧ old.owner = caller ∧
    s.time < old.untilNs

/-- **A new lock is entered**, with its boosts, or the others are spared. -/
theorem acquireNew_ends (hs : s.Good) (caller : Caller) (handle : Int) {durationMs : Nat}
    (hnodup : hints.Nodup) (hduration : durationMs ≤ int32Max) :
    Ends (acquireNew caller handle hints durationMs) s
      (fun k s' => Entered s caller handle hints durationMs k s') fun _ s' => Spared s s' := by
  unfold acquireNew refuse
  rw [ends_bind, ends_get, ends_bind]
  split
  · rw [ends_throw]
    exact (Quiet.refl s).spared hs
  · rename_i hnext
    have hext : s.backend.ext = true := by simpa using hnext
    rw [ends_pure, ends_bind]
    refine (checkOld_ends caller handle).mono (fun _ s₁ h₁ => ?_) fun _ _ h => h.spared hs
    obtain ⟨hquiet₁, hold⟩ := h₁
    rw [ends_bind]
    refine (checkSupported_ends hints).mono (fun _ s₂ h₂ => ?_)
      fun _ _ h => (hquiet₁.trans h).spared hs
    have hquiet₂ := hquiet₁.trans h₂
    rw [ends_bind, ends_get, ends_bind]
    split
    · rw [ends_throw]
      exact hquiet₂.spared hs
    · rw [ends_pure]
      unfold insertLock
      rw [ends_bind, ends_bind]
      refine now_ends.mono (fun t s₃ h₃ => ?_) fun _ _ h => h
      obtain ⟨hquiet, rfl⟩ := h₃
      have hquiet₃ := hquiet₂.trans hquiet
      rw [ends_bind, ends_get, ends_bind, ends_set, ends_pure, ends_bind]
      have hstart := hquiet₃.insert hs hduration (rfl : (⟨_, caller, _, [], false⟩ : Entry) = _)
      have hlt : s.next < s₃.next + 1 := Int.lt_add_one_iff.mpr hquiet₃.next
      refine (holdHints_ends hints hstart hext hnodup fun _ _ => List.not_mem_nil).mono
        (fun _ s₄ h₄ => ?_) fun _ s₄ h₄ => h₄.2.spared hs hlt
      rw [ends_pure]
      obtain ⟨hholding, htime⟩ := h₄
      exact ⟨⟨_, hholding, rfl, rfl, Nat.add_le_add_right hquiet₃.time _,
        Nat.add_le_add_right htime _⟩, hlt, hext, hold⟩

/-- The new lock has the place of the old one. -/
structure Replaced (s : State) (old entry : Entry) (hints : List String) (s' : State) : Prop where
  kin : Kin s s'
  good : s'.Good
  others : s.OthersSame old.handle s'
  own : ∃ own, { entry with handle := old.handle, hints := own } ∈ s'.locks ∧
    ∀ hint, hint ∈ own ↔ hint ∈ hints

/-- The release of the old lock has failed: it has ended, and so has the new one. -/
structure Broken (s : State) (old : Entry) (s' : State) : Prop where
  kin : Kin s s'
  good : s'.Good
  kept : ∀ b ∈ s.locks, b.handle ≠ old.handle → b ∈ s'.locks
  new : ∀ b ∈ s'.locks, (b ∈ s.locks ∧ b.handle ≠ old.handle) ∨ b.untilNs ≤ s'.time
  failed : s'.failed = true

/-- A lock takes a handle that no lock has. -/
theorem State.Good.rename (hs : s.Good) (he : entry ∈ s.locks) {handle : Int}
    (hfresh : ∀ b ∈ s.locks, b.handle ≠ handle) (hrange : 0 < handle ∧ handle ≤ s.next) :
    (s.modifyLock entry.handle ({ · with handle := handle })).Good := by
  have hmem : ∀ b, b ∈ (s.modifyLock entry.handle ({ · with handle := handle })).locks ↔
      (b ∈ s.locks ∧ b.handle ≠ entry.handle) ∨ b = { entry with handle := handle } :=
    fun b => mem_modify hs.keys he
  refine ⟨⟨?_, ?_, hs.next, ?_, ?_, ?_, ?_⟩, ?_, hs.unsent⟩
  · exact nodup_rekey hs.keys fun _ _ _ b hb => hfresh b hb
  · intro b hb
    rcases (hmem b).mp hb with ⟨hb, -⟩ | rfl
    · exact hs.range b hb
    · exact hrange
  · intro b hb
    rcases (hmem b).mp hb with ⟨hb, -⟩ | rfl
    · exact hs.hints b hb
    · exact hs.hints entry he
  · exact hs.toSound.references_same he fun _ => Iff.rfl
  · intro b hb
    rcases (hmem b).mp hb with ⟨hb, -⟩ | rfl
    · exact hs.bound b hb
    · exact hs.bound entry he
  · intro b hb
    rcases (hmem b).mp hb with ⟨hb, -⟩ | rfl
    · exact hs.cut b hb
    · exact hs.cut entry he
  · intro hok hext hint
    exact (hs.known hok hext hint).modify hs.toSound he Iff.rfl (fun _ => rfl) id

/-- **The old lock goes**, or the update is broken off with `EIO`. -/
theorem replaceOld_ends (h : Holding s entry hints s') (hext : s.backend.ext = true)
    (hold : old ∈ s.locks) (hs : s.Good) (hlt : s.next < entry.handle) :
    Ends (replaceOld old.handle entry.handle) s'
      (fun k t => k = old.handle ∧ Replaced s old entry hints t ∧ s'.time ≤ t.time)
      fun errno t => errno = .eio ∧ Broken s old t := by
  obtain ⟨own, hmem, hown⟩ := h.own
  -- the new lock has a handle of its own until it takes the old one's
  have hne : old.handle ≠ entry.handle := fun heq =>
    absurd (heq ▸ (hs.range old hold).2) (Int.not_le.mpr hlt)
  have hold' : old ∈ s'.locks := (h.others old hne).mpr hold
  unfold replaceOld
  rw [ends_bind]
  refine now_ends.mono (fun t s₁ h₁ => ?_) fun _ _ h => h
  obtain ⟨hquiet, rfl⟩ := h₁
  have hold₁ : old ∈ s₁.locks := by rw [hquiet.locks]; exact hold'
  rw [ends_bind, ends_modify, ends_bind]
  -- the old lock ends first
  refine (shorten_ends (hquiet.good h.good) hold₁ (Nat.le_refl _)).mono (fun ok s₂ h₂ => ?_)
    fun _ _ h => h
  have hended := hquiet.ended h₂
  have hkin := h.kin.trans hended.kin
  have hmem₂ : { entry with hints := own } ∈ s₂.locks :=
    (hended.others { entry with hints := own } hne.symm).mpr hmem
  split
  -- the old lock is gone, and its handle free for the new one
  · rename_i htrue
    rw [ends_bind, ends_modify, ends_pure]
    have hfresh : ∀ b ∈ s₂.locks, b.handle ≠ old.handle := fun b hb hk =>
      absurd (htrue.symm.trans (hended.own b hb hk).1) nofun
    have hrange : 0 < old.handle ∧ old.handle ≤ s₂.next :=
      ⟨(hs.range old hold).1, (hs.range old hold).2.trans hkin.next⟩
    refine ⟨rfl, ⟨⟨⟨hkin.next, hkin.callbacks, hkin.cookie, hkin.time, hkin.failed⟩, hkin.backend⟩,
      hended.good.rename hmem₂ hfresh hrange, fun b hb => ?_, own, ?_, hown⟩, hended.kin.time⟩
    · refine (mem_modify (e := { entry with hints := own }) hended.good.keys hmem₂).trans ?_
      constructor
      · rintro (⟨hb₂, hb'⟩ | rfl)
        · exact (h.others b hb').mp ((hended.others b hb).mp hb₂)
        · exact absurd rfl hb
      · intro hb₀
        have hb' : b.handle ≠ entry.handle := fun heq =>
          absurd (heq ▸ (hs.range b hb₀).2) (Int.not_le.mpr hlt)
        exact .inl ⟨(hended.others b hb).mpr ((h.others b hb').mpr hb₀), hb'⟩
    · exact (mem_modify (e := { entry with hints := own }) hended.good.keys hmem₂).mpr (.inr rfl)
  -- the backend failed for the old lock: the new one is given up as well
  · rename_i hfalse
    rw [ends_bind]
    refine (abandon_ends (e := { entry with hints := own }) hended.good hmem₂).mono
      (fun _ _ h => h.elim) fun errno s₃ h₃ => ?_
    obtain ⟨rfl, ok', hlost⟩ := h₃
    refine ⟨rfl, hkin.trans hlost.kin, hlost.good, fun b hb hb' => ?_, fun b hb => ?_, ?_⟩
    · have hne' : b.handle ≠ entry.handle := fun heq =>
        absurd (heq ▸ (hs.range b hb).2) (Int.not_le.mpr hlt)
      exact (hlost.others b hne').mpr ((hended.others b hb').mpr ((h.others b hne').mpr hb))
    · by_cases hb' : b.handle = entry.handle
      · exact .inr (hlost.own b hb hb').2.2
      · have hb₂ := (hlost.others b hb').mp hb
        by_cases hb₀ : b.handle = old.handle
        · exact .inr ((hended.own b hb₂ hb₀).2.2.trans hlost.kin.time)
        · exact .inl ⟨(h.others b hb').mp ((hended.others b hb₀).mp hb₂), hb₀⟩
    · cases hbad : s₃.failed with
      | true => rfl
      | false => exact absurd (hended.done (h.kin.backend ▸ hext)
          (hlost.kin.toSteady.not_failed hbad)) hfalse

/-- What a successful `acquire` leaves. -/
structure Acquired (s : State) (caller : Caller) (handle : Int) (hints : List String)
    (durationMs : Nat) (k : Int) (s' : State) : Prop where
  kin : Kin s s'
  good : s'.Good
  others : s.OthersSame k s'
  own : ∃ e ∈ s'.locks, e.handle = k ∧ e.owner = caller ∧
    s.time + durationMs * nanosPerMs ≤ e.untilNs ∧
    e.untilNs ≤ s'.time + durationMs * nanosPerMs ∧ ∀ hint, hint ∈ e.hints ↔ hint ∈ hints
  new : handle ≤ 0 → s.next < k
  update : 0 < handle → k = handle ∧ ∃ old ∈ s.locks, old.handle = handle ∧ old.owner = caller

/-- The new lock had all its hints when the old one could not be released. -/
structure HalfDone (s : State) (caller : Caller) (handle : Int) (duration : Nat)
    (resources : List Int) (names : List String) (s' : State) : Prop where
  update : 0 < handle
  entered : ∃ hints durationMs k t,
    checkArguments duration resources names = .ok (hints, durationMs) ∧
    acquireNew caller handle hints durationMs s = .ok k t
  broken : ∃ old ∈ s.locks, old.handle = handle ∧ old.owner = caller ∧ Broken s old s'

/-- **`acquire`.** -/
theorem acquire_ends (hs : s.Good) (caller : Caller) (handle : Int) (duration : Nat)
    (resources : List Int) (names : List String) :
    Ends (acquire caller handle duration resources names) s
      (fun k s' => ∃ hints durationMs, checkArguments duration resources names =
        .ok (hints, durationMs) ∧ Acquired s caller handle hints durationMs k s')
      fun errno s' => Spared s s' ∨
        (errno = .eio ∧ HalfDone s caller handle duration resources names s') := by
  unfold acquire
  split
  · rw [ends_throw]
    exact .inl ((Quiet.refl s).spared hs)
  · rename_i hints durationMs hargs
    obtain ⟨hnodup, hduration, -⟩ := checkArguments_ok hargs
    rw [ends_bind]
    refine (acquireNew_ends hs caller handle hnodup hduration).traced.mono (fun k s₁ h₁ => ?_)
      fun _ _ h => .inl h.2
    obtain ⟨hrun, ⟨entry, hholding, rfl, howner, hlow, hhigh⟩, hlt, hext, hold⟩ := h₁
    split
    · rename_i hpos
      obtain ⟨old, hmem, rfl, hsame, -⟩ := hold hpos
      refine (replaceOld_ends hholding hext hmem hs hlt).mono (fun k s₂ h₂ => ?_)
        fun errno s₂ h₂ => .inr ⟨h₂.1, hpos, ⟨hints, durationMs, _, s₁, hargs, hrun⟩, old, hmem,
          rfl, hsame, h₂.2⟩
      obtain ⟨rfl, hreplaced, htime⟩ := h₂
      obtain ⟨own, hin, hown⟩ := hreplaced.own
      refine ⟨hints, durationMs, hargs, hreplaced.kin, hreplaced.good, hreplaced.others,
        ⟨_, hin, rfl, howner, hlow, hhigh.trans (Nat.add_le_add_right htime _), hown⟩,
        fun hle => absurd hpos (Int.not_lt.mpr hle), fun _ => ⟨rfl, old, hmem, rfl, hsame⟩⟩
    · rename_i hpos
      rw [ends_pure]
      obtain ⟨own, hin, hown⟩ := hholding.own
      exact ⟨hints, durationMs, hargs, hholding.kin, hholding.good, hholding.others,
        ⟨_, hin, rfl, howner, hlow, hhigh, hown⟩, fun _ => hlt, fun h => absurd h hpos⟩

end Acquire

end Mindone.Power
