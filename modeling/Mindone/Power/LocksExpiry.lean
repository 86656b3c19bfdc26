import Mindone.Power.LocksCalls

/-!
# Mindone.Power.LocksExpiry

A pass of the expiry thread, and the audio mode. A new connection has no boosts; **the replay tells
it every hint that some lock still holds** (`replayHints_ends`), and what it leaves out is either
held by nobody or only by locks that have expired.
-/

namespace Mindone.Power

open Mindone.Lib

section Backend

variable {s s' : State} {hint : String} {E : Errno → State → Prop}

/-! ### The connection -/

/-- The tables are the same, and the invariant is kept. -/
structure Kept (s s' : State) : Prop extends Tables s s' where
  good : s'.Good

theorem Kept.refl (hs : s.Good) : Kept s s := ⟨Tables.refl s, hs⟩

theorem Kept.trans {t u : State} (h : Kept s t) (h' : Kept t u) : Kept s u :=
  ⟨h.toTables.trans h'.toTables, h'.good⟩

theorem Quiet.kept (h : Quiet s s') (hs : s.Good) : Kept s s' := ⟨h.toTables, h.good hs⟩

/-- The part of the connection that is not `mBackend` changes. -/
theorem Kept.withBackend (h : Kept s s') {b : Backend} (hext : b.ext = s'.backend.ext) :
    Kept s { s' with backend := b } :=
  have hs := h.good
  ⟨⟨⟨h.next, h.callbacks, h.cookie, h.time, h.failed⟩, h.locks, h.references⟩,
    hs.same ⟨hs.keys, hs.range, hs.next, hs.hints, hs.references, hs.bound, hs.cut⟩ rfl rfl
      (Nat.le_refl _) id hext⟩

theorem Kept.withAudio (h : Kept s s') (audio : List ((Nat × Int) × Nat)) (dirty : Bool) :
    Kept s { s' with audio := audio, audioDirty := dirty } :=
  have hs := h.good
  ⟨⟨⟨h.next, h.callbacks, h.cookie, h.time, h.failed⟩, h.locks, h.references⟩,
    hs.same ⟨hs.keys, hs.range, hs.next, hs.hints, hs.references, hs.bound, hs.cut⟩ rfl rfl
      (Nat.le_refl _) id rfl⟩

theorem State.Good.dropBackend (hs : s.Good) : Kept s s.dropBackend where
  toTables := ⟨⟨Int.le_refl _, rfl, rfl, Nat.le_refl _, id⟩, rfl, rfl⟩
  good :=
    { toSound := ⟨hs.keys, hs.range, hs.next, hs.hints, hs.references, hs.bound, hs.cut⟩
      known := fun _ hext => absurd hext nofun
      unsent := fun _ _ => rfl }

/-- Events of the backend leave the locks. -/
theorem updateBackend_kept (hs : s.Good) (events : BackendEvents) :
    Kept s (s.updateBackend events) := by
  have hdead : Kept s (s.dropDead events.deaths) := by
    unfold State.dropDead
    split
    · exact hs.dropBackend.withBackend rfl
    · exact Kept.refl hs
  have hready : ∀ t : State, t.Good → Kept t (t.followReady events.ready) := by
    intro t ht
    unfold State.followReady
    split
    · exact ht.dropBackend.withBackend rfl
    · exact (Kept.refl ht).withBackend rfl
  have hregistered : ∀ t : State, t.Good → Kept t (t.takeRegistered events.registered) := by
    intro t ht
    unfold State.takeRegistered
    split
    · exact ht.dropBackend.withBackend rfl
    · exact Kept.refl ht
  have hfollowed := hdead.trans (hready _ hdead.good)
  exact hfollowed.trans (hregistered _ hfollowed.good)

/-- What `connect` leaves: the backend may be there now. -/
structure Connected (s s' : State) : Prop extends Tables s s' where
  boosts : s'.boosts = s.boosts
  ext : s.backend.ext = true → s'.backend.ext = true

theorem Connected.trans {t u : State} (h : Connected s t) (h' : Connected t u) : Connected s u :=
  ⟨h.toTables.trans h'.toTables, h'.boosts.trans h.boosts, fun hext => h'.ext (h.ext hext)⟩

theorem Quiet.connected (h : Quiet s s') : Connected s s' :=
  ⟨h.toTables, h.boosts, fun hext => h.backend ▸ hext⟩

/-- The part of the connection that is not `mBackend` changes. -/
theorem modifyBackend_ends {f : Backend → Backend} (hext : ∀ b, (f b).ext = b.ext) :
    Ends (modifyBackend f) s
      (fun _ s' => Connected s s' ∧ s'.backend.ext = s.backend.ext) E := by
  unfold modifyBackend
  rw [ends_modify]
  exact ⟨⟨⟨⟨Int.le_refl _, rfl, rfl, Nat.le_refl _, id⟩, rfl, rfl⟩, rfl,
    fun h => (hext _).trans h⟩, hext _⟩

theorem linkBackend_ends : Ends linkBackend s
    (fun _ s' => Connected s s' ∧ s'.backend.ext = s.backend.ext) E := by
  unfold linkBackend
  rw [ends_bind, ends_get]
  split
  · rw [ends_pure]
    exact ⟨(Quiet.refl s).connected, rfl⟩
  · rw [ends_bind]
    refine connectCall_ends.mono (fun reply s₁ hquiet => ?_) fun _ _ h => h
    rw [ends_bind]
    refine Ends.mono (modifyBackend_ends fun _ => rfl) (fun _ s₂ h₂ => ?_) fun _ _ h => h
    rw [ends_pure]
    exact ⟨hquiet.connected.trans h₂.1, h₂.2.trans (by rw [hquiet.backend])⟩

theorem findPower_ends : Ends findPower s
    (fun _ s' => Connected s s' ∧ s'.backend.ext = s.backend.ext) E := by
  unfold findPower
  rw [ends_bind, ends_get]
  split
  · rw [ends_pure]
    exact ⟨(Quiet.refl s).connected, rfl⟩
  · rw [ends_bind]
    refine connectCall_ends.mono (fun reply s₁ hquiet => ?_) fun _ _ h => h
    refine Ends.mono (modifyBackend_ends fun _ => rfl) (fun _ s₂ h₂ => ?_) fun _ _ h => h
    exact ⟨hquiet.connected.trans h₂.1, h₂.2.trans (by rw [hquiet.backend])⟩

/-- `mBackend` is only set where `mPower` is there. -/
theorem findExt_ends : Ends findExt s
    (fun _ s' => Connected s s' ∧ s'.backend.power = s.backend.power ∧
      (s'.backend.ext = true → s.backend.ext = true ∨ s.backend.power = true)) E := by
  unfold findExt
  rw [ends_bind, ends_get]
  split
  · rename_i hcond
    obtain ⟨hpower, hnot⟩ := Bool.and_eq_true_iff.mp hcond
    rw [ends_bind]
    refine connectCall_ends.mono (fun reply s₁ hquiet => ?_) fun _ _ h => h
    unfold modifyBackend
    rw [ends_modify]
    refine ⟨⟨⟨⟨hquiet.next, hquiet.callbacks, hquiet.cookie, hquiet.time, hquiet.failed⟩,
      hquiet.locks, hquiet.references⟩, hquiet.boosts, fun hext => ?_⟩, ?_, fun _ => .inr hpower⟩
    · rw [hext] at hnot
      cases hnot
    · show s₁.backend.power = _
      rw [hquiet.backend]
  · rw [ends_pure]
    exact ⟨(Quiet.refl s).connected, rfl, .inl⟩

/-- A connection finds out what the backend can do. -/
theorem connect_ends : Ends connect s (fun ok s' => Connected s s' ∧
    (ok = true → s'.backend.ext = true) ∧
    (ok = false → s'.backend.ext = true → s.backend.ext = true)) E := by
  unfold connect
  rw [ends_bind]
  refine linkBackend_ends.mono (fun linked s₁ h₁ => ?_) fun _ _ h => h
  obtain ⟨hconnected₁, hext₁⟩ := h₁
  split
  · rw [ends_pure]
    exact ⟨hconnected₁, nofun, fun _ hext => hext₁ ▸ hext⟩
  · rw [ends_bind]
    refine findPower_ends.mono (fun _ s₂ h₂ => ?_) fun _ _ h => h
    obtain ⟨hconnected₂, hext₂⟩ := h₂
    rw [ends_bind]
    refine findExt_ends.mono (fun _ s₃ h₃ => ?_) fun _ _ h => h
    obtain ⟨hconnected₃, hpower, hfound⟩ := h₃
    rw [ends_bind, ends_get, ends_pure]
    refine ⟨(hconnected₁.trans hconnected₂).trans hconnected₃, fun hok => ?_, fun hno hext => ?_⟩
    · exact (Bool.and_eq_true_iff.mp hok).2
    · rw [hext, Bool.and_true, hpower] at hno
      rcases hfound hext with h | h
      · rw [← hext₁, ← hext₂]
        exact h
      · exact absurd (hno.symm.trans h) nofun

/-! ### The replay -/

/-- During a replay the backend may not know of a hint yet. -/
def State.Pending (s : State) (hint : String) : Prop := s.Known hint ∨ s.boosts hint = none

/-- What holds before and after each turn of a replay. -/
structure Replaying (s : State) (s' : State) : Prop extends Tables s s' where
  backend : s'.backend = s.backend
  pending : s'.failed = false → ∀ hint, s'.Pending hint
  known : s'.failed = false → ∀ hint, s.Known hint → s'.Known hint

theorem Replaying.trans {t u : State} (h : Replaying s t) (h' : Replaying t u) : Replaying s u :=
  ⟨h.toTables.trans h'.toTables, h'.backend.trans h.backend, h'.pending,
    fun hok hint hknown => h'.known hok hint (h.known (h'.toSteady.not_failed hok) hint hknown)⟩

theorem Calm.known_quiet (h : Quiet s s') (hknown : s.Known hint) : s'.Known hint :=
  h.toCalm.known (by rw [h.boosts]) hknown

theorem Quiet.pending (h : Quiet s s') (hpending : s.Pending hint) : s'.Pending hint :=
  hpending.imp (Calm.known_quiet h) fun hnone => by rw [h.boosts]; exact hnone

theorem Quiet.replaying (h : Quiet s s') (hpending : s.failed = false → ∀ hint, s.Pending hint) :
    Replaying s s' :=
  ⟨h.toTables, h.backend, fun hok _ => h.pending (hpending (h.toSteady.not_failed hok) _),
    fun _ _ => Calm.known_quiet h⟩

/-- A hint without a boost is as it should be when only expired locks hold it. -/
theorem State.Pending.known_of_expired (h : s.Pending hint)
    (hexpired : ∀ e ∈ s.locks, hint ∈ e.hints → e.untilNs ≤ s.time) : s.Known hint := by
  rcases h with h | hnone
  · exact h
  · refine .inl ⟨?_, fun _ => .inl hnone⟩
    rintro untilNs hlt ⟨e, he, hmem, rfl⟩ -
    exact absurd (hexpired e he hmem) (Nat.not_le.mpr hlt)

/-- The scan for a live holder says which way it ended. -/
theorem anyActive_ends (hint : String) (locks : List Entry) :
    Ends (anyActive hint locks) s (fun active s' => Quiet s s' ∧
      (active = true → ∃ e ∈ locks, hint ∈ e.hints) ∧
      (active = false → ∀ e ∈ locks, hint ∈ e.hints → e.untilNs ≤ s'.time)) E := by
  induction locks generalizing s with
  | nil =>
      unfold anyActive
      rw [ends_pure]
      exact ⟨Quiet.refl s, nofun, fun _ _ he => absurd he List.not_mem_nil⟩
  | cons e locks ih =>
      unfold anyActive
      rw [ends_bind]
      refine now_ends.mono (fun t s₁ h₁ => ?_) fun _ _ h => h
      obtain ⟨hquiet₁, rfl⟩ := h₁
      rw [ends_bind]
      refine ih.mono (fun rest s₂ h₂ => ?_) fun _ _ h => h
      obtain ⟨hquiet₂, hsome, hnone⟩ := h₂
      rw [ends_pure]
      refine ⟨hquiet₁.trans hquiet₂, fun hactive => ?_, fun hactive b hb hmem => ?_⟩
      · rcases Bool.or_eq_true_iff.mp hactive with h | h
        · exact ⟨e, List.mem_cons_self, of_decide_eq_true (Bool.and_eq_true_iff.mp h).2⟩
        · obtain ⟨b, hb, hmem⟩ := hsome h
          exact ⟨b, .tail _ hb, hmem⟩
      · obtain ⟨hthis, hrest⟩ := Bool.or_eq_false_iff.mp hactive
        rcases List.mem_cons.mp hb with rfl | hb
        · rw [decide_eq_true hmem, Bool.and_true, decide_eq_false_iff_not, Nat.not_lt] at hthis
          exact hthis.trans hquiet₂.time
        · exact hnone hrest b hb hmem

/-- **One turn of the replay**: behind it the boost of this hint is right. -/
theorem replayHint_ends (hs : s.Sound) (hint : String)
    (hpending : s.failed = false → ∀ hint, s.Pending hint) :
    Ends (replayHint hint) s
      (fun _ s' => Replaying s s' ∧ (s'.failed = false → s'.Known hint)) E := by
  unfold replayHint
  rw [ends_bind, ends_get, ends_bind]
  refine (anyActive_ends hint s.locks).mono (fun active s₁ h₁ => ?_) fun _ _ h => h
  obtain ⟨hquiet₁, hsome, hnone⟩ := h₁
  split
  · rename_i hinactive
    rw [ends_pure]
    refine ⟨hquiet₁.replaying hpending, fun hok => ?_⟩
    refine (hquiet₁.pending (hpending (hquiet₁.toSteady.not_failed hok) hint)).known_of_expired ?_
    rw [hquiet₁.locks]
    exact hnone (by simpa using hinactive)
  · rename_i hactive
    obtain ⟨e, he, hmem⟩ := hsome (by simpa using hactive)
    rw [ends_bind]
    refine backendCall_ends.mono (fun reply s₂ h₂ => ?_) fun _ _ h => h
    have hquiet₂ := hquiet₁.trans h₂.1
    split
    · rw [ends_bind]
      refine now_ends.mono (fun t s₃ h₃ => ?_) fun _ _ h => h
      obtain ⟨hquiet, rfl⟩ := h₃
      have hquiet₃ := hquiet₂.trans hquiet
      refine (apply_ends hint s₃.time).mono (fun ok s₄ h₄ => ?_) fun _ _ h => h
      obtain ⟨hcalm, hok, hnot⟩ := h₄
      have hcalm' := hquiet₃.toCalm.trans hcalm
      -- a failure would have been seen
      have hsent : s₄.failed = false → s₄.boosts = Function.update s₃.boosts hint
          (some (.lasting s₄.time (ceilMs (latest s₃.locks hint s₃.time) s₄.time))) := by
        intro hgood
        cases ok with
        | true => exact hok rfl
        | false => exact absurd (hgood.symm.trans (hnot rfl).1) nofun
      have hboosted : s₄.failed = false → s₄.Boosted hint := by
        intro hgood
        refine boosted_of_apply_same hcalm (hsent hgood) (.inl hcalm.time)
          (hcalm'.toTables.sound hs) ⟨e, ?_, hmem⟩
        rw [hcalm'.locks]
        exact he
      have hother : s₄.failed = false → ∀ other, other ≠ hint →
          s₄.boosts other = s.boosts other := by
        intro hgood other hne
        rw [hsent hgood, Function.update_of_ne hne, hquiet₃.boosts]
      refine ⟨⟨hcalm'.toTables, hcalm'.backend, fun hgood other => ?_, fun hgood other hknown => ?_⟩,
        fun hgood => .inl (hboosted hgood)⟩
      · by_cases heq : other = hint
        · subst heq
          exact .inl (.inl (hboosted hgood))
        · refine (hpending (hcalm'.toSteady.not_failed hgood) other).imp
            (hcalm'.known (hother hgood other heq)) fun hunsent => ?_
          rw [hother hgood other heq]
          exact hunsent
      · by_cases heq : other = hint
        · subst heq
          exact .inl (hboosted hgood)
        · exact hcalm'.known (hother hgood other heq) hknown
    · rw [ends_bind, ends_modify, ends_pure]
      exact ⟨⟨⟨⟨hquiet₂.next, hquiet₂.callbacks, hquiet₂.cookie, hquiet₂.time, fun _ => rfl⟩,
        hquiet₂.locks, hquiet₂.references⟩, hquiet₂.backend, nofun, nofun⟩, nofun⟩

/-- **Every hint that is replayed is known afterwards.** -/
theorem replayHints_ends (hs : s.Sound) (hints : List String)
    (hpending : s.failed = false → ∀ hint, s.Pending hint) :
    Ends (replayHints hints) s (fun _ s' => Replaying s s' ∧
      (s'.failed = false → ∀ hint ∈ hints, s'.Known hint)) E := by
  induction hints generalizing s with
  | nil =>
      unfold replayHints
      rw [ends_pure]
      exact ⟨(Quiet.refl s).replaying hpending, fun _ _ h => absurd h List.not_mem_nil⟩
  | cons hint hints ih =>
      unfold replayHints
      rw [ends_bind]
      refine (replayHint_ends hs hint hpending).mono (fun ok s₁ h₁ => ?_) fun _ _ h => h
      obtain ⟨hreplaying₁, hknown₁⟩ := h₁
      rw [ends_bind]
      refine (ih (hreplaying₁.toTables.sound hs) hreplaying₁.pending).mono (fun rest s₂ h₂ => ?_)
        fun _ _ h => h
      obtain ⟨hreplaying₂, hknown₂⟩ := h₂
      rw [ends_pure]
      refine ⟨hreplaying₁.trans hreplaying₂, fun hok other hother => ?_⟩
      rcases List.mem_cons.mp hother with rfl | hother
      · exact hreplaying₂.known hok other (hknown₁ (hreplaying₂.toSteady.not_failed hok))
      · exact hknown₂ hok other hother

/-! ### A pass -/

/-- The audio hints are brought to the backend. -/
theorem syncAudio_ends (hs : s.Good) : Ends syncAudio s (fun _ s' => Kept s s') E := by
  unfold syncAudio
  rw [ends_bind, ends_get]
  split
  · rw [ends_pure]
    exact Kept.refl hs
  · split
    · rw [ends_pure]
      exact Kept.refl hs
    · rw [ends_bind]
      refine backendCall_ends.mono (fun supported s₁ h₁ => ?_) fun _ _ h => h
      split
      · rw [ends_pure]
        exact h₁.1.kept hs
      · rw [ends_bind]
        refine backendCall_ends.mono (fun reply s₂ h₂ => ?_) fun _ _ h => h
        have hkept := (h₁.1.trans h₂.1).kept hs
        split
        · rw [ends_pure]
          exact hkept
        · rw [ends_bind, ends_modify, ends_pure]
          exact hkept.withAudio s₂.audio false

theorem andThen_ends {ok : Bool} {p : Op Bool} {Q : State → Prop} (h : Ends p s (fun _ => Q) E)
    (hskip : Q s) : Ends (andThen ok p) s (fun _ => Q) E := by
  unfold andThen
  split
  · exact h
  · exact (ends_pure _).mpr hskip

theorem finishReplay_ends (hs : s.Good) (restored : Bool) :
    Ends (finishReplay restored) s (fun _ s' => Kept s s') E := by
  unfold finishReplay modifyBackend
  split
  · rw [ends_modify]
    exact (Kept.refl hs).withBackend rfl
  · rw [ends_bind]
    refine now_ends.mono (fun t s₁ h₁ => ?_) fun _ _ h => h
    rw [ends_modify]
    exact (h₁.1.kept hs).withBackend rfl

/-- The hints that are replayed are those that some lock holds. -/
theorem mem_referenced (hs : s.Sound) {e : Entry} (he : e ∈ s.locks) (hmem : hint ∈ e.hints) :
    hint ∈ s.referenced := by
  unfold State.referenced
  have hlookup := hs.references hint
  rw [if_neg (Nat.ne_of_gt (holders_pos he hmem))] at hlookup
  refine (List.perm_insertionSort _ _).mem_iff.mpr ?_
  refine AList.mem_keys.mp (AList.lookup_isSome.mp ?_)
  rw [hlookup]
  rfl

/-- **A replay tells a new backend what is held.** -/
theorem attemptReplay_ends (hs : s.Good) : Ends attemptReplay s (fun _ s' => Kept s s') E := by
  unfold attemptReplay
  rw [ends_bind]
  refine connect_ends.mono (fun connected s₁ h₁ => ?_) fun _ _ h => h
  obtain ⟨hconnected, hyes, hno⟩ := h₁
  rw [ends_bind, ends_get, ends_bind]
  have hsound := hconnected.toTables.sound hs.toSound
  -- Every hint can be replayed: it was known before, or nothing has been sent to this backend.
  have hpending : s₁.failed = false → ∀ hint, s₁.Pending hint := by
    intro hok hint
    cases hext : s.backend.ext with
    | true =>
        refine .inl ((hs.known (hconnected.toSteady.not_failed hok) hext hint).same
          (heldUntil_of_locks hconnected.locks) (by rw [hconnected.boosts]) hconnected.time
          fun e he hcut hmem => ?_)
        rw [hconnected.locks]
        exact ⟨e, he, hcut, hmem⟩
    | false =>
        refine .inr ?_
        rw [hconnected.boosts]
        exact hs.unsent hext hint
  have hreplayed : Ends (andThen connected (replayHints s₁.referenced)) s₁
      (fun _ s₂ => Kept s s₂) E := by
    unfold andThen
    -- Without a connection nothing is replayed and everything known stays so.
    cases connected with
    | false =>
        refine (ends_pure _).mpr ⟨hconnected.toTables, hsound, fun hok hext hint => ?_, ?_⟩
        · refine (hs.known (hconnected.toSteady.not_failed hok) (hno rfl hext) hint).same
            (heldUntil_of_locks hconnected.locks) (by rw [hconnected.boosts]) hconnected.time
            fun e he hcut hmem => ?_
          rw [hconnected.locks]
          exact ⟨e, he, hcut, hmem⟩
        · intro hext hint
          rw [hconnected.boosts]
          refine hs.unsent (Bool.eq_false_of_not_eq_true fun htrue => ?_) hint
          exact absurd (hext.symm.trans (hconnected.ext htrue)) nofun
    | true =>
        refine (replayHints_ends hsound s₁.referenced hpending).mono (fun _ s₂ h₂ => ?_)
          fun _ _ h => h
        obtain ⟨hreplaying, hknown⟩ := h₂
        have hsound₂ := hreplaying.toTables.sound hsound
        refine ⟨hconnected.toTables.trans hreplaying.toTables, hsound₂, fun hok _ hint => ?_, ?_⟩
        -- A hint that is held was among those replayed; one that is not was never boosted.
        · by_cases hheld : ∃ e ∈ s₁.locks, hint ∈ e.hints
          · obtain ⟨e, he, hmem⟩ := hheld
            exact hknown hok hint (mem_referenced hsound he hmem)
          · refine (hreplaying.pending hok hint).known_of_expired fun e he hmem => ?_
            rw [hreplaying.locks] at he
            exact absurd ⟨e, he, hmem⟩ hheld
        · intro hext
          rw [hreplaying.backend, hyes rfl] at hext
          cases hext
  refine hreplayed.mono (fun restored s₂ h₂ => ?_) fun _ _ h => h
  rw [ends_bind, ends_modify, ends_bind]
  -- The boosts are settled; what follows concerns the audio hints only.
  have hdirty := h₂.withAudio s₂.audio (s₂.audioDirty || !s₂.audio.isEmpty)
  refine (andThen_ends (syncAudio_ends hdirty.good) (Kept.refl hdirty.good)).mono
    (fun synced s₃ h₃ => ?_) fun _ _ h => h
  refine (finishReplay_ends h₃.good synced).mono (fun _ s₄ h₄ => ?_) fun _ _ h => h
  exact (hdirty.trans h₃).trans h₄

theorem recover_ends (hs : s.Good) : Ends recover s (fun _ s' => Kept s s') E := by
  unfold recover
  rw [ends_bind, ends_get]
  split
  · rw [ends_pure]
    exact Kept.refl hs
  · rw [ends_bind]
    refine now_ends.mono (fun t s₁ h₁ => ?_) fun _ _ h => h
    have hkept := h₁.1.kept hs
    split
    · rw [ends_pure]
      exact hkept
    · exact (attemptReplay_ends hkept.good).mono (fun _ _ h => hkept.trans h) fun _ _ h => h

theorem expireOwner_ends {s₀ : State} (h : Kept s₀ s) (owner : (Nat × Int) × Nat) :
    Ends (expireOwner owner) s (fun _ s' => Kept s₀ s') E := by
  unfold expireOwner
  rw [ends_bind]
  refine now_ends.mono (fun t s₁ h₁ => ?_) fun _ _ h => h
  have hkept := h.trans (h₁.1.kept h.good)
  split
  · rw [ends_modify]
    exact hkept.withAudio (s₁.audio.filter (·.1 ≠ owner.1)) true
  · rw [ends_pure]
    exact hkept

/-- The clock is read once more. -/
theorem readClock_ends : Ends readClock s (fun _ s' => Quiet s s') E := by
  unfold readClock
  rw [ends_bind]
  refine now_ends.mono (fun t s₁ h₁ => ?_) fun _ _ h => h
  rw [ends_pure]
  exact h₁.1

/-- The audio mode is tried again where no replay is to come. -/
theorem retryAudio_ends (hs : s.Good) : Ends retryAudio s (fun _ s' => Kept s s') E := by
  unfold retryAudio
  rw [ends_bind, ends_get]
  split
  · rw [ends_pure]
    exact Kept.refl hs
  rw [ends_bind]
  refine (syncAudio_ends hs).mono (fun synced s₁ h₁ => ?_) fun _ _ h => h
  split
  · rw [ends_pure]
    exact h₁
  · exact readClock_ends.mono (fun _ s₂ h₂ => h₁.trans (h₂.kept h₁.good)) fun _ _ h => h

/-- Between two turns over the locks: those that were cut short are still to come. -/
structure Expiring (s : State) (rest : List Int) (s' : State) : Prop where
  framed : Framed (·.untilNs ≤ s'.time) s s'
  cut : s'.failed = false → s'.backend.ext = true → ∀ e ∈ s'.locks, e.cut = true →
    e.handle ∈ rest

theorem Expiring.quiet {rest : List Int} {t : State} (h : Expiring s rest s') (hquiet : Quiet s' t) :
    Expiring s rest t where
  framed := ⟨h.framed.steady.trans hquiet.toSteady, hquiet.good h.framed.good, fun e he => by
    rw [hquiet.locks]
    exact (h.framed.locks e he).imp id fun hle => hle.trans hquiet.time⟩
  cut := by
    rw [hquiet.backend, hquiet.locks]
    exact fun hok => h.cut (hquiet.toSteady.not_failed hok)

theorem Expiring.skip {handle : Int} {rest : List Int} {t : State}
    (h : Expiring s (handle :: rest) s') (hquiet : Quiet s' t)
    (hgone : ∀ e ∈ s'.locks, e.cut = true → e.handle ≠ handle) : Expiring s rest t := by
  refine Expiring.quiet ⟨h.framed, fun hok hext e he hcut => ?_⟩ hquiet
  exact (List.mem_cons.mp (h.cut hok hext e he hcut)).resolve_left (hgone e he hcut)

/-- One turn over the locks. -/
theorem expireLock_ends {handle : Int} {rest : List Int} (h : Expiring s (handle :: rest) s') :
    Ends (expireLock handle) s' (fun _ t => Expiring s rest t) E := by
  unfold expireLock
  rw [ends_bind, ends_get]
  split
  -- The lock went away earlier in the pass.
  · rename_i hnone
    rw [ends_pure]
    exact h.skip (Quiet.refl s') fun e he _ => find_eq_none hnone e he
  · rename_i e hfind
    obtain ⟨he, rfl⟩ := mem_of_find hfind
    rw [ends_bind]
    refine now_ends.mono (fun t s₁ h₁ => ?_) fun _ _ h => h
    obtain ⟨hquiet, rfl⟩ := h₁
    have hgood := hquiet.good h.framed.good
    have he₁ : e ∈ s₁.locks := by rw [hquiet.locks]; exact he
    split
    -- Its time is up: all its hints are released, or the pass ends in a failure.
    · rename_i hended
      rw [ends_bind]
      refine (releaseLocked_ends hgood.toSound he₁ hended).mono (fun ok s₂ h₂ => ?_)
        fun _ _ h => h
      have hkin : Steady s' s₂ := hquiet.toSteady.trans h₂.kin.toSteady
      have hreleased : Expiring s rest s₂ := by
        refine ⟨⟨h.framed.steady.trans hkin, ?_, fun b hb => ?_⟩, fun hok hext b hb hcut => ?_⟩
        · exact h₂.good hgood.toSound he₁ (fun hok hext hint _ => hgood.known hok hext hint)
            hgood.unsent
        · rcases h.framed.locks b hb with hb' | hle
          · by_cases hk : b.handle = e.handle
            · rw [eq_of_key h.framed.good.keys hb' he hk]
              exact .inr (hended.trans h₂.kin.time)
            · rw [← hquiet.locks] at hb'
              exact .inl ((h₂.others b hk).mpr hb')
          · exact .inr (hle.trans hkin.time)
        · rw [h₂.kin.backend] at hext
          -- With no failure the lock is gone, so a lock that is cut is one of the rest.
          have hdone := h₂.done hext hok
          have hk : b.handle ≠ e.handle := fun hk =>
            absurd (hdone.symm.trans (h₂.own b hb hk).1) nofun
          have hb₁ := (h₂.others b hk).mp hb
          rw [hquiet.locks] at hb₁
          rw [hquiet.backend] at hext
          exact (List.mem_cons.mp (h.cut (hkin.not_failed hok) hext b hb₁ hcut)).resolve_left hk
      split
      · rw [ends_pure]
        exact hreleased
      · exact readClock_ends.mono (fun _ s₃ h₃ => hreleased.quiet h₃) fun _ _ h => h
    -- Its time is not up: it is left alone, and it is none of those that are cut.
    · rename_i hlive
      rw [ends_pure]
      refine h.skip hquiet fun b hb hcut hk => hlive ?_
      rw [eq_of_key h.framed.good.keys hb he hk] at hcut
      exact hgood.cut e he₁ hcut

/-- What a pass leaves. -/
structure Passed (s s' : State) : Prop where
  framed : Framed (·.untilNs ≤ s'.time) s s'
  whole : s'.failed = false → s'.backend.ext = true → ∀ e ∈ s'.locks, e.cut = false

/-- **A pass of the expiry thread.** -/
theorem expire_ends (hs : s.Good) (events : BackendEvents) :
    Ends (expire events) s (fun _ s' => Passed s s') E := by
  unfold expire
  rw [ends_bind, ends_modify, ends_bind, ends_get, ends_bind]
  have hkept := updateBackend_kept hs events
  refine (ends_forM (I := fun _ s₁ => Kept s s₁)
    (fun owner rest s₁ h => expireOwner_ends h owner) hkept).mono (fun _ s₁ h₁ => ?_)
    fun _ _ h => h
  rw [ends_bind]
  refine (recover_ends h₁.good).mono (fun _ s₂ h₂ => ?_) fun _ _ h => h
  rw [ends_bind]
  refine (retryAudio_ends h₂.good).mono (fun _ s₃ h₃ => ?_) fun _ _ h => h
  have hkept₃ := (h₁.trans h₂).trans h₃
  rw [ends_bind, ends_get]
  have hstart : Expiring s s₃.handles s₃ := by
    refine ⟨⟨hkept₃.toSteady, hkept₃.good, fun e he => .inl (hkept₃.locks ▸ he)⟩,
      fun _ _ e he _ => ?_⟩
    exact (List.perm_insertionSort _ _).mem_iff.mpr (List.mem_map_of_mem he)
  refine (ends_forM (I := Expiring s) (fun handle rest s' h => expireLock_ends h) hstart).mono
    (fun _ s₄ h₄ => ?_) fun _ _ h => h
  refine ⟨h₄.framed, fun hok hext e he => ?_⟩
  exact Bool.eq_false_of_not_eq_true fun hcut =>
    absurd (h₄.cut hok hext e he hcut) List.not_mem_nil

/-! ### The audio mode -/

/-- **`audio`** leaves the locks alone. -/
theorem audio_ends (hs : s.Good) (caller : Caller) (hint data : Int) :
    Ends (audio caller hint data) s (fun _ s' => Kept s s') fun _ s' => Kept s s' := by
  -- The call first changes the table of audio hints, whose every exit keeps the locks.
  have hchange : Ends (changeAudio caller hint data) s (fun _ s' => Kept s s')
      fun _ s' => Kept s s' := by
    unfold changeAudio
    split
    -- To acquire one the backend is asked twice, and the clock once.
    · unfold acquireAudio refuse
      rw [ends_bind, ends_get, ends_bind]
      split
      · rw [ends_throw]
        exact Kept.refl hs
      rw [ends_pure, ends_bind]
      refine backendCall_ends.mono (fun supported s₁ h₁ => ?_) fun _ _ h => h
      have hkept₁ := h₁.1.kept hs
      rw [ends_bind]
      split
      · rw [ends_throw]
        exact hkept₁
      rw [ends_pure, ends_bind]
      split
      · rw [ends_throw]
        exact hkept₁
      rw [ends_pure, ends_bind]
      refine backendCall_ends.mono (fun reply s₂ h₂ => ?_) fun _ _ h => h
      have hkept₂ := hkept₁.trans (h₂.1.kept hkept₁.good)
      rw [ends_bind]
      split
      · rw [ends_throw]
        exact hkept₂
      rw [ends_pure, ends_bind]
      refine now_ends.mono (fun t s₃ h₃ => ?_) fun _ _ h => h
      rw [ends_modify]
      exact (hkept₂.trans (h₃.1.kept hkept₂.good)).withAudio _ s₃.audioDirty
    · unfold releaseAudio refuse
      rw [ends_bind, ends_get, ends_bind]
      split
      · rw [ends_throw]
        exact Kept.refl hs
      · rw [ends_pure, ends_modify]
        exact (Kept.refl hs).withAudio _ s.audioDirty
  -- The table is then brought to the backend, and only that can refuse now.
  unfold audio refuse
  rw [ends_bind]
  split
  · rw [ends_throw]
    exact Kept.refl hs
  rw [ends_pure, ends_bind]
  refine hchange.mono (fun _ s₁ h₁ => ?_) fun _ _ h => h
  rw [ends_bind, ends_modify, ends_bind]
  have hdirty := h₁.withAudio s₁.audio true
  refine (syncAudio_ends hdirty.good).mono (fun synced s₂ h₂ => ?_) fun _ _ h => h
  split
  · rw [ends_throw]
    exact hdirty.trans h₂
  · rw [ends_pure]
    exact hdirty.trans h₂

end Backend

end Mindone.Power
