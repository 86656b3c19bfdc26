import Mindone.Power.ExpiryThreadKeeps

/-!
# Mindone.Power.ExpiryThreadLaws

**The expiry thread never oversleeps.** Whenever it waits, its wake flag is set, or it wakes up in
time for everything that is to come and has taken every event of the backend: a pass looks at all of
it, and what changes afterwards sets the flag. And **the audio mode follows its owners**: on one
connection, a mode that is not dirty was last set as the owners want it.
-/

namespace Mindone.Power

open Lib

/-! ### Rules -/

section Rules

variable {α : Type} {s : Service} {Q : α → Service → Prop} {E : Errno → Service → Prop}

theorem ends_lift {p : Op α} : Ends (lift p) s Q E ↔ Ends p s.core
    (fun a core => Q a { s with core := core }) fun errno core => E errno { s with core := core } := by
  unfold Ends lift
  cases p s.core <;> rfl

theorem ends_thenChanged {p : Serve α} : Ends (thenChanged p) s Q E ↔
    Ends p s (fun a s' => Q a s'.changed) fun errno s' => E errno s'.changed := by
  unfold Ends thenChanged
  cases p s <;> rfl

end Rules

/-! ### Wake-up times -/

section Waits

variable {wait : Wait} {time other : Nat}

theorem Wait.before_by (wait : Wait) (time : Nat) : (wait.before time).By time := by
  unfold Wait.By Wait.before
  cases wait.next with
  | none => exact ⟨time, rfl, Nat.le_refl _⟩
  | some next => exact ⟨min next time, rfl, Nat.min_le_right _ _⟩

theorem Wait.By.before (h : wait.By time) (other : Nat) : (wait.before other).By time := by
  obtain ⟨next, hnext, hle⟩ := h
  exact ⟨min next other, by simp [Wait.before, hnext], (Nat.min_le_left _ _).trans hle⟩

/-- What has failed is tried again within a second. -/
def Wait.Retries (wait : Wait) : Prop := ∀ failure ∈ wait.failed, wait.By (failure.2 + retryNs)

/-- The second wait is for more than the first. -/
structure Wait.Extends (wait wait' : Wait) : Prop where
  by_ : ∀ time, wait.By time → wait'.By time
  failed : ∀ failure ∈ wait.failed, failure ∈ wait'.failed
  retries : wait.Retries → wait'.Retries

theorem Wait.Extends.refl (wait : Wait) : wait.Extends wait := ⟨fun _ => id, fun _ => id, id⟩

theorem Wait.Extends.trans {wait' wait'' : Wait} (h : wait.Extends wait') (h' : wait'.Extends wait'') :
    wait.Extends wait'' :=
  ⟨fun time ht => h'.by_ time (h.by_ time ht), fun failure hf => h'.failed failure (h.failed failure hf),
    fun hr => h'.retries (h.retries hr)⟩

theorem Wait.extends_before (wait : Wait) (time : Nat) : wait.Extends (wait.before time) :=
  ⟨fun _ h => h.before time, fun _ => id, fun h failure hf => (h failure hf).before time⟩

theorem Wait.extends_retry (wait : Wait) (what : Option Int) (time : Nat) :
    wait.Extends (wait.retry what time) ∧ (what, time) ∈ (wait.retry what time).failed := by
  refine ⟨⟨fun _ h => h.before _, fun _ hf => List.mem_append_left _ hf, fun h failure hf => ?_⟩, ?_⟩
  · obtain hf | hf := List.mem_append.1 hf
    · exact (h failure hf).before _
    · rw [List.mem_singleton.1 hf]
      exact wait.before_by _
  · exact List.mem_append_right _ (List.mem_singleton_self _)

theorem awaitReplay_extends (wait : Wait) (backend : Backend) : wait.Extends (awaitReplay wait backend) := by
  unfold awaitReplay
  split
  · split
    · exact .refl wait
    · exact wait.extends_before _
  · exact .refl wait

theorem awaitReplay_by {backend : Backend} (hready : backend.ready = true) (hbinder : backend.binder ≠ none)
    (hreplay : backend.replay = true) (htime : backend.replayAt = some time) :
    (awaitReplay wait backend).By time := by
  unfold awaitReplay
  rw [if_pos ⟨hready, hbinder, hreplay⟩, htime]
  exact wait.before_by time

end Waits

/-! ### The audio mode -/

/-- **The mode that was last set is the one that the owners want**, unless it is dirty. -/
def ModeRight (s : Service) : Prop :=
  s.core.audioDirty = false → (s.mode = some true ↔ s.core.audio ≠ [])

section Mode

variable {s s' : Service} {core : State}

theorem ModeRight.aside (h : ModeRight s) (haside : Aside s.core core) : ModeRight { s with core := core } := by
  unfold ModeRight at h ⊢
  simp only [haside.audio, haside.audioDirty]
  exact h

theorem now_idle (t : State) {E : Errno → State → Prop} :
    Ends now t (fun time t' => Idle t t' ∧ t'.time = time) E := by
  unfold now
  rw [ends_bind, ends_get, ends_bind, ends_set, ends_pure]
  exact ⟨⟨⟨rfl, rfl, rfl, Nat.le_add_right _ _⟩, fun _ _ => id⟩, rfl⟩

theorem backendCall_idle (t : State) {E : Errno → State → Prop} :
    Ends backendCall t (fun _ t' => Idle t t') E := by
  unfold backendCall
  rw [ends_bind, ends_get, ends_bind, ends_set, ends_pure]
  exact ⟨⟨rfl, rfl, rfl, Nat.le_refl _⟩, fun _ _ => id⟩

theorem Recovered.withDirty {t u : State} (h : Recovered t u) (dirty : Bool) :
    Recovered { t with audioDirty := dirty } { u with audioDirty := dirty } :=
  ⟨h.audio, rfl, h.ready, h.timed, h.time, h.deadline⟩

/-- `syncAudio` cleans the mode where it returns true. -/
theorem syncAudio_dirty (t : State) {E : Errno → State → Prop} : Ends syncAudio t
    (fun ok t' => Recovered { t with audioDirty := t'.audioDirty } t' ∧ t'.backend = t.backend ∧
      t'.audioDirty = (t.audioDirty && !ok)) E := by
  unfold syncAudio
  rw [ends_bind, ends_get]
  cases hdirty : t.audioDirty with
  | false =>
      rw [if_pos (by decide), ends_pure]
      exact ⟨.refl t, rfl, by rw [hdirty]; rfl⟩
  | true =>
      rw [if_neg (by decide)]
      -- a call that fails leaves the mode dirty
      have hstays : ∀ u : State, Idle t u → Recovered { t with audioDirty := u.audioDirty } u ∧
          u.backend = t.backend ∧ u.audioDirty = (true && !false) := fun u hu =>
        ⟨hu.recovered.withDirty u.audioDirty, hu.backend, by rw [hu.audioDirty, hdirty]; rfl⟩
      cases hpower : t.backend.power with
      | false =>
          rw [if_pos (by decide), ends_pure]
          exact hstays t (.refl t)
      | true =>
          rw [if_neg (by decide), ends_bind]
          refine (backendCall_idle t).mono (fun supported u hu => ?_) fun _ _ h => h
          split
          · rw [ends_pure]
            exact hstays u hu
          · rw [ends_bind]
            refine (backendCall_idle u).mono (fun reply v hv => ?_) fun _ _ h => h
            split
            · rw [ends_pure]
              exact hstays v (hu.trans hv)
            · rw [ends_bind, ends_modify, ends_pure]
              exact ⟨(hu.trans hv).recovered.withDirty false, (hu.trans hv).backend, rfl⟩

/-- What the thread does to the service in a pass, between its two sections. -/
structure Passes (s s' : Service) : Prop where
  events : s'.events = s.events
  thread : s'.thread = s.thread
  recovered : s'.core.backend.ready = s.core.backend.ready ∧
    (s.core.backend.Timed → s'.core.backend.Timed) ∧ s.core.time ≤ s'.core.time
  deadline : ∀ k time, s'.core.deadline k = some time → s.core.deadline k = some time
  mode : ModeRight s → ModeRight s'

theorem Passes.refl (s : Service) : Passes s s :=
  ⟨rfl, rfl, ⟨rfl, id, Nat.le_refl _⟩, fun _ _ => id, id⟩

theorem Passes.trans {s'' : Service} (h : Passes s s') (h' : Passes s' s'') : Passes s s'' :=
  ⟨h'.events.trans h.events, h'.thread.trans h.thread, ⟨h'.recovered.1.trans h.recovered.1,
    fun ht => h'.recovered.2.1 (h.recovered.2.1 ht), h.recovered.2.2.trans h'.recovered.2.2⟩,
    fun k time hk => h.deadline k time (h'.deadline k time hk), fun hm => h'.mode (h.mode hm)⟩

theorem Idle.passes (h : Idle s.core core) : Passes s { s with core := core } :=
  ⟨rfl, rfl, ⟨by rw [h.backend], by rw [h.backend]; exact id, h.time⟩, h.deadline,
    fun hm => hm.aside h.toAside⟩

/-- The mode is set as the owners want it, or stays dirty. -/
theorem syncMode_ends (s : Service) {E : Errno → Service → Prop} : Ends syncMode s
    (fun ok s' => Passes s s' ∧ s'.core.audio = s.core.audio ∧ s'.core.backend = s.core.backend ∧
      s'.core.audioDirty = (s.core.audioDirty && !ok)) E := by
  unfold syncMode noteMode
  rw [ends_bind, ends_get, ends_bind, ends_lift]
  refine (syncAudio_dirty s.core).mono (fun ok core h => ?_) fun _ _ h => h
  obtain ⟨hrecovered, hbackend, hdirty⟩ := h
  rw [ends_bind, ends_modify, ends_pure]
  refine ⟨⟨rfl, rfl, ⟨hrecovered.ready, hrecovered.timed, hrecovered.time⟩, hrecovered.deadline, ?_⟩,
    hrecovered.audio, hbackend, hdirty⟩
  intro hmode hclean
  simp only [hdirty] at hclean
  simp only [hrecovered.audio]
  cases hwas : s.core.audioDirty with
  | false => simpa [hwas] using hmode hwas
  | true =>
      cases ok with
      | false => simp [hwas] at hclean
      | true => simp

end Mode

/-! ### A pass -/

section Pass

variable {s s' : Service} {E : Errno → Service → Prop}

/-- The owners that stay are waited for. -/
theorem ownerTurns_ends (owners : List ((Nat × Int) × Nat)) (wait : Wait) (s : Service)
    (h : ∀ owner ∈ s.core.audio, owner ∈ owners ∨ wait.By owner.2) :
    Ends (ownerTurns wait owners) s (fun wait' s' => Passes s s' ∧ wait.Extends wait' ∧
      ∀ owner ∈ s'.core.audio, wait'.By owner.2) E := by
  induction owners generalizing wait s with
  | nil =>
      unfold ownerTurns
      rw [ends_pure]
      exact ⟨.refl s, .refl wait, fun owner howner => (h owner howner).resolve_left List.not_mem_nil⟩
  | cons owner owners ih =>
      unfold ownerTurns ownerTurn
      rw [ends_bind, ends_bind, ends_lift]
      refine (now_idle s.core).mono (fun time core hnow => ?_) fun _ _ h => h
      obtain ⟨hidle, -⟩ := hnow
      have hpasses := hidle.passes
      split
      · -- the owner has expired
        rw [ends_bind, ends_lift, ends_modify, ends_pure]
        refine (ih wait _ fun other hother => ?_).mono (fun wait' s' hrest => ?_) fun _ _ h => h
        · have hother : other ∈ core.audio.filter (·.1 ≠ owner.1) := hother
          obtain ⟨hin, hne⟩ := List.mem_filter.1 hother
          rw [hidle.audio] at hin
          refine (h other hin).imp_left fun hmem => ?_
          obtain rfl | hmem := List.mem_cons.1 hmem
          · simp at hne
          · exact hmem
        · obtain ⟨hpassed, hextends, hall⟩ := hrest
          refine ⟨hpasses.trans (.trans ?_ hpassed), hextends, hall⟩
          exact ⟨rfl, rfl, ⟨rfl, id, Nat.le_refl _⟩, fun _ _ => id, fun _ hclean => by cases hclean⟩
      · rw [ends_pure]
        refine (ih (wait.before owner.2) _ fun other hother => ?_).mono (fun wait' s' hrest => ?_)
          fun _ _ h => h
        · have hother : other ∈ core.audio := hother
          rw [hidle.audio] at hother
          obtain hmem | hby := h other hother
          · obtain rfl | hmem := List.mem_cons.1 hmem
            · exact .inr (wait.before_by _)
            · exact .inl hmem
          · exact .inr (hby.before _)
        · obtain ⟨hpassed, hextends, hall⟩ := hrest
          exact ⟨hpasses.trans hpassed, (wait.extends_before _).trans hextends, hall⟩

theorem Recovered.passes {core : State} (h : Recovered s.core core) : Passes s { s with core := core } := by
  refine ⟨rfl, rfl, ⟨h.ready, h.timed, h.time⟩, h.deadline, fun hmode hclean => ?_⟩
  simp only [h.audioDirty] at hclean
  simp only [h.audio]
  exact hmode hclean

theorem syncRestored_ends (restored : Bool) (h : Passes s s') (haudio : s'.core.audio = s.core.audio) :
    Ends (syncRestored restored) s' (fun _ s'' => Passes s s'' ∧ s''.core.audio = s.core.audio) E := by
  unfold syncRestored
  split
  · refine (syncMode_ends s').mono (fun _ s'' hsynced => ?_) fun _ _ h => h
    exact ⟨h.trans hsynced.1, hsynced.2.1.trans haudio⟩
  · rw [ends_pure]
    exact ⟨h, haudio⟩

/-- The replay leaves the owners as they are. -/
theorem recoverTurn_ends (s : Service) :
    Ends recoverTurn s (fun _ s' => Passes s s' ∧ s'.core.audio = s.core.audio) E := by
  unfold recoverTurn
  rw [ends_bind, ends_get]
  dsimp only
  split
  · rw [ends_pure]
    exact ⟨.refl s, rfl⟩
  · rw [ends_bind, ends_lift]
    refine (now_idle s.core).mono (fun time core hnow => ?_) fun _ _ h => h
    have hnow := hnow.1.recovered
    split
    · rw [ends_pure]
      exact ⟨hnow.passes, hnow.audio⟩
    · unfold replayTurn
      rw [ends_bind, ends_lift]
      refine (@connect_recovered s.core (fun _ => False) core hnow).mono (fun connected core hconnected => ?_)
        fun _ _ h => h.elim
      rw [ends_bind, ends_get, ends_bind, ends_lift]
      refine (Clear.andThen ((recovered_clear s.core).replayHints _) core hconnected).mono
        (fun restored core hreplayed => ?_) fun _ _ (h : False) => h.elim
      rw [ends_bind, ends_lift, ends_modify, ends_bind]
      -- the owners make the mode dirty
      have hdirty : Passes s { s with core := { core with
          audioDirty := core.audioDirty || !core.audio.isEmpty } } := by
        refine hreplayed.passes.trans ⟨rfl, rfl, ⟨rfl, id, Nat.le_refl _⟩, fun _ _ => id, fun hmode hclean => ?_⟩
        obtain ⟨hwas, -⟩ := Bool.or_eq_false_iff.1 hclean
        exact hmode hwas
      refine (syncRestored_ends restored hdirty hreplayed.audio).mono (fun synced s' hsynced => ?_)
        fun _ _ h => h
      rw [ends_lift]
      refine (@finishReplay_recovered s'.core (fun _ => False) synced s'.core (.refl _)).mono
        (fun _ core hfinished => ?_) fun _ _ h => h.elim
      exact ⟨hsynced.1.trans hfinished.passes, hfinished.audio.trans hsynced.2⟩

/-- The mode is tried again when it could not be set. -/
theorem audioTurn_ends (wait : Wait) (s : Service) : Ends (audioTurn wait) s
    (fun wait' s' => Passes s s' ∧ s'.core.audio = s.core.audio ∧ wait.Extends wait' ∧
      (s'.core.backend.replay = false → s'.core.audioDirty = true → ∃ time, (none, time) ∈ wait'.failed)) E := by
  unfold audioTurn
  rw [ends_bind, ends_get]
  split
  · rename_i hreplay
    rw [ends_pure]
    exact ⟨.refl s, rfl, .refl wait, fun hno => absurd hreplay (by rw [hno]; decide)⟩
  · rw [ends_bind]
    refine (syncMode_ends s).mono (fun synced s' hsynced => ?_) fun _ _ h => h
    obtain ⟨hpasses, haudio, -, hdirty⟩ := hsynced
    split
    · rename_i hok
      rw [ends_pure]
      refine ⟨hpasses, haudio, .refl wait, fun _ hno => ?_⟩
      rw [hdirty, hok] at hno
      simp at hno
    · rw [ends_bind, ends_lift]
      refine (now_idle s'.core).mono (fun time core hnow => ?_) fun _ _ h => h
      rw [ends_pure]
      obtain ⟨hextends, hfailed⟩ := wait.extends_retry none time
      exact ⟨hpasses.trans hnow.1.passes, hnow.1.audio.trans haudio, hextends, fun _ _ => ⟨time, hfailed⟩⟩

/-- A lock is waited for, or its release has failed. -/
def Attended (wait : Wait) (core : State) (k : Int) (time : Nat) : Prop :=
  wait.By time ∨ ∃ failure, (some k, failure) ∈ wait.failed ∧ time ≤ core.time

theorem Attended.extends {wait wait' : Wait} {core core' : State} {k : Int} {time : Nat}
    (h : Attended wait core k time) (hextends : wait.Extends wait') (htime : core.time ≤ core'.time) :
    Attended wait' core' k time := by
  obtain hby | ⟨failure, hfailure, hle⟩ := h
  · exact .inl (hextends.by_ time hby)
  · exact .inr ⟨failure, hextends.failed _ hfailure, hle.trans htime⟩

/-- One lock of the pass: it is gone, will be seen to in time, or its release has failed. -/
theorem lockTurn_ends (wait : Wait) (handle : Int) (s : Service) : Ends (lockTurn wait handle) s
    (fun wait' s' => Passes s s' ∧ Idle s.core s'.core ∧ wait.Extends wait' ∧
      ∀ time, s'.core.deadline handle = some time → Attended wait' s'.core handle time) E := by
  unfold lockTurn
  rw [ends_bind, ends_get]
  cases hfind : s.core.find handle with
  | none =>
      rw [ends_pure]
      refine ⟨.refl s, .refl _, .refl wait, fun time htime => ?_⟩
      simp [State.deadline, hfind] at htime
  | some e =>
      have hdeadline : s.core.deadline handle = some e.untilNs := by simp [State.deadline, hfind]
      rw [ends_bind, ends_lift]
      refine (now_idle s.core).mono (fun now core hnow => ?_) fun _ _ h => h
      obtain ⟨hidle, hnow⟩ := hnow
      split
      -- Expired: released, or tried again after the retry time.
      · rename_i hexpired
        rw [ends_bind, ends_lift]
        refine ((idle_clear core).releaseLocked_ends (.refl core) handle).mono (fun released core' hreleased => ?_)
          fun _ _ (h : False) => h.elim
        obtain ⟨hidle', hgone⟩ := hreleased
        split
        · rename_i hok
          rw [ends_pure]
          refine ⟨(hidle.trans hidle').passes, hidle.trans hidle', .refl wait, fun time htime => ?_⟩
          rw [hgone hok] at htime
          cases htime
        · rw [ends_bind, ends_lift]
          refine (now_idle core').mono (fun again core'' hagain => ?_) fun _ _ h => h
          have hall := (hidle.trans hidle').trans hagain.1
          obtain ⟨hextends, hfailed⟩ := wait.extends_retry (some handle) again
          rw [ends_pure]
          refine ⟨hall.passes, hall, hextends, fun time htime => .inr ⟨again, hfailed, ?_⟩⟩
          obtain rfl : e.untilNs = time := by
            simpa [hdeadline] using hall.deadline handle time htime
          rw [← hnow] at hexpired
          -- Its deadline has passed already when the retry is set.
          exact hexpired.trans (hidle'.trans hagain.1).time
      · rw [ends_pure]
        refine ⟨hidle.passes, hidle, wait.extends_before _, fun time htime => .inl ?_⟩
        obtain rfl : e.untilNs = time := by
          simpa [hdeadline] using hidle.deadline handle time htime
        -- Not expired: the wait is not longer than what is left.
        exact wait.before_by _

/-- **After the pass every lock that is left is attended to.** -/
theorem lockTurns_ends (handles : List Int) (wait : Wait) (s : Service)
    (h : ∀ k time, s.core.deadline k = some time → k ∈ handles ∨ Attended wait s.core k time) :
    Ends (lockTurns wait handles) s (fun wait' s' => Passes s s' ∧ Idle s.core s'.core ∧ wait.Extends wait' ∧
      ∀ k time, s'.core.deadline k = some time → Attended wait' s'.core k time) E := by
  induction handles generalizing wait s with
  | nil =>
      unfold lockTurns
      rw [ends_pure]
      exact ⟨.refl s, .refl _, .refl wait, fun k time hk => (h k time hk).resolve_left List.not_mem_nil⟩
  | cons handle handles ih =>
      unfold lockTurns
      rw [ends_bind]
      refine (lockTurn_ends wait handle s).mono (fun wait' s' hturn => ?_) fun _ _ h => h
      obtain ⟨hpasses, hidle, hextends, hattended⟩ := hturn
      refine (ih wait' s' fun k time hk => ?_).mono (fun wait'' s'' hrest => ?_) fun _ _ h => h
      · obtain hmem | hwas := h k time (hidle.deadline k time hk)
        · obtain rfl | hmem := List.mem_cons.1 hmem
          · exact .inr (hattended time hk)
          · exact .inl hmem
        · exact .inr (hwas.extends hextends hidle.time)
      · obtain ⟨hpasses', hidle', hextends', hall⟩ := hrest
        exact ⟨hpasses.trans hpasses', hidle.trans hidle', hextends.trans hextends', hall⟩

/-- What a wait is long enough for. -/
structure Punctual (core : State) (wait : Wait) : Prop where
  owners : ∀ owner ∈ core.audio, wait.By owner.2
  locks : ∀ k time, core.deadline k = some time → Attended wait core k time
  retries : wait.Retries
  mode : core.backend.replay = false → core.audioDirty = true → ∃ time, (none, time) ∈ wait.failed
  replay : core.backend.ready = true → core.backend.binder ≠ none → core.backend.replay = true →
    ∀ time, core.backend.replayAt = some time → wait.By time

theorem Punctual.idle {core core' : State} {wait : Wait} (h : Punctual core wait) (hidle : Idle core core') :
    Punctual core' wait where
  owners := by
    rw [hidle.audio]
    exact h.owners
  locks k time hk := (h.locks k time (hidle.deadline k time hk)).extends (.refl wait) hidle.time
  retries := h.retries
  mode := by
    rw [hidle.backend, hidle.audioDirty]
    exact h.mode
  replay := by
    rw [hidle.backend]
    exact h.replay

/-- **A pass ends in a wait that is punctual.** -/
theorem pass_ends (s : Service) : Ends pass s (fun _ s' => ∃ wait t, s'.thread = .waiting wait ∧
    Punctual s'.core wait ∧ Passes s t ∧ s' = { t with thread := s'.thread }) E := by
  unfold pass
  rw [ends_bind, ends_get, ends_bind]
  refine (ownerTurns_ends s.core.audio .start s fun owner howner => .inl howner).mono
    (fun wait₁ s₁ h₁ => ?_) fun _ _ h => h
  obtain ⟨hpasses₁, hextends₁, howners₁⟩ := h₁
  rw [ends_bind]
  refine (recoverTurn_ends s₁).mono (fun _ s₂ h₂ => ?_) fun _ _ h => h
  obtain ⟨hpasses₂, haudio₂⟩ := h₂
  rw [ends_bind]
  refine (audioTurn_ends wait₁ s₂).mono (fun wait₃ s₃ h₃ => ?_) fun _ _ h => h
  obtain ⟨hpasses₃, haudio₃, hextends₃, hmode₃⟩ := h₃
  rw [ends_bind, ends_get, ends_bind]
  -- every lock has its turn
  refine (lockTurns_ends s₃.core.handles wait₃ s₃ fun k time hk => .inl ?_).mono (fun wait₄ s₄ h₄ => ?_)
    fun _ _ h => h
  · obtain ⟨e, he, -⟩ := Option.map_eq_some_iff.1 hk
    obtain ⟨hmem, rfl⟩ := mem_of_find he
    exact (List.mem_insertionSort _).2 (List.mem_map_of_mem hmem)
  · obtain ⟨hpasses₄, hidle₄, hextends₄, hlocks₄⟩ := h₄
    rw [ends_modify]
    have hlast := awaitReplay_extends wait₄ s₄.core.backend
    have hfrom₁ := (hextends₃.trans hextends₄).trans hlast
    have hstart : Wait.start.Retries := fun failure hfailure => by cases hfailure
    refine ⟨_, s₄, rfl, ⟨?_, ?_, ?_, ?_, ?_⟩, ((hpasses₁.trans hpasses₂).trans hpasses₃).trans hpasses₄, rfl⟩
    · rintro owner (howner : owner ∈ s₄.core.audio)
      rw [hidle₄.audio, haudio₃, haudio₂] at howner
      exact hfrom₁.by_ _ (howners₁ owner howner)
    · exact fun k time hk => (hlocks₄ k time hk).extends hlast (Nat.le_refl _)
    · exact hfrom₁.retries (hextends₁.retries hstart)
    · rintro (hreplay : s₄.core.backend.replay = false) (hdirty : s₄.core.audioDirty = true)
      rw [hidle₄.backend] at hreplay
      rw [hidle₄.audioDirty] at hdirty
      obtain ⟨time, htime⟩ := hmode₃ hreplay hdirty
      exact ⟨time, hlast.failed _ (hextends₄.failed _ htime)⟩
    · exact fun hready hbinder hreplay time htime => awaitReplay_by hready hbinder hreplay htime

end Pass

/-! ### Clients -/

section Clients

variable {s s' : Service} {core : State}

/-- **What a client does**: it sets the wake flag, or changes nothing that the thread waits for. -/
structure Announces (s s' : Service) : Prop where
  thread : s'.thread = s.thread
  timed : s.core.backend.Timed → s'.core.backend.Timed
  mode : ModeRight s → ModeRight s'
  wake : s'.events.wake = true ∨ Idle s.core s'.core ∧ s'.events = s.events

theorem Idle.announces (h : Idle s.core core) : Announces s { s with core := core } :=
  ⟨rfl, h.passes.recovered.2.1, h.passes.mode, .inr ⟨h, rfl⟩⟩

theorem Aside.announces (h : Aside s.core core) : Announces s (Service.changed { s with core := core }) :=
  ⟨rfl, by rw [show (Service.changed { s with core := core }).core = core from rfl, h.backend]; exact id,
    fun hmode => hmode.aside h, .inl rfl⟩

/-- A program that checks before it changes anything, and then calls `changed`. -/
theorem checked_announces {α β : Type} {check : Op α} {rest : α → Op β}
    (hcheck : ∀ t, Keeps (Idle t) (Idle t) check) (hrest : ∀ a t, Keeps (Aside t) (Aside t) (rest a)) (s : Service) :
    Ends (do let a ← lift check; thenChanged (lift (rest a))) s (fun _ s' => Announces s s')
      fun _ s' => Announces s s' := by
  rw [ends_bind, ends_lift]
  refine (hcheck s.core s.core (.refl _)).mono (fun a core hidle => ?_) fun _ core hidle => hidle.announces
  rw [ends_thenChanged, ends_lift]
  exact (hrest a s.core core hidle.toAside).mono (fun _ core' haside => haside.announces)
    fun _ core' haside => haside.announces

theorem serveAcquire_ends (caller : Caller) (handle : Int) (duration : Nat) (resources : List Int)
    (names : List String) (s : Service) : Ends (serveAcquire caller handle duration resources names) s
      (fun _ s' => Announces s s') fun _ s' => Announces s s' := by
  unfold serveAcquire
  split
  · rw [ends_throw]
    exact (Idle.refl s.core).announces
  · exact checked_announces (fun t => (idle_clear t).acquireChecks _ _ _)
      (fun _ t => acquireHolds_aside _ _ _ _) s

theorem serveRelease_ends (caller : Caller) (handle : Int) (s : Service) :
    Ends (serveRelease caller handle) s (fun _ s' => Announces s s') fun _ s' => Announces s s' :=
  checked_announces (fun _ => Clear.releaseChecks _ _) (fun _ _ => releaseEnds_aside _) s

theorem serveDied_ends (cookie : Nat) (s : Service) :
    Ends (serveDied cookie) s (fun _ s' => Announces s s') fun _ s' => Announces s s' := by
  unfold serveDied
  rw [ends_bind, ends_get]
  split
  · rw [ends_pure]
    exact (Idle.refl s.core).announces
  · rw [ends_thenChanged, ends_lift]
    exact (serviceDied_aside cookie s.core (.refl _)).mono (fun _ core h => h.announces) fun _ core h => h.announces

/-- An owner gets the mode or gives it back, or nothing changes. -/
theorem changeAudio_ends (caller : Caller) (hint data : Int) (t : State) : Ends (changeAudio caller hint data) t
    (fun _ t' => t'.backend = t.backend) fun _ t' => Idle t t' := by
  unfold changeAudio
  split
  · unfold acquireAudio
    rw [ends_bind, ends_get, ends_bind]
    refine (Clear.refuse _ _ t (Idle.refl t)).mono (fun _ u hu => ?_) fun _ _ hu => hu
    rw [ends_bind]
    refine ((idle_clear t).backendCall u hu).mono (fun supported u hu => ?_) fun _ _ (hu : Idle t _) => hu
    rw [ends_bind]
    refine (Clear.refuse _ _ u hu).mono (fun _ u hu => ?_) fun _ _ hu => hu
    rw [ends_bind]
    refine (Clear.refuse _ _ u hu).mono (fun _ u hu => ?_) fun _ _ hu => hu
    rw [ends_bind]
    refine ((idle_clear t).backendCall u hu).mono (fun reply u hu => ?_) fun _ _ (hu : Idle t _) => hu
    rw [ends_bind]
    refine (Clear.refuse _ _ u hu).mono (fun _ u hu => ?_) fun _ _ hu => hu
    rw [ends_bind]
    refine ((idle_clear t).now u hu).mono (fun time u hu => ?_) fun _ _ (hu : Idle t _) => hu
    rw [ends_modify]
    exact hu.backend
  · unfold releaseAudio
    rw [ends_bind, ends_get, ends_bind]
    refine (Clear.refuse _ _ t (Idle.refl t)).mono (fun _ u hu => ?_) fun _ _ hu => hu
    rw [ends_modify]
    exact hu.backend

/-- Every `audio` call announces what it changed. -/
theorem serveAudio_ends (caller : Caller) (hint data : Int) (s : Service) :
    Ends (serveAudio caller hint data) s (fun _ s' => Announces s s') fun _ s' => Announces s s' := by
  unfold serveAudio noteMode
  rw [ends_bind, ends_lift]
  refine (Clear.refuse _ _ s.core (Idle.refl s.core)).mono (fun _ core hidle => ?_) fun _ _ hidle => hidle.announces
  rw [ends_bind, ends_lift]
  refine (changeAudio_ends caller hint data core).mono (fun _ core' hbackend => ?_) fun _ _ h => (hidle.trans h).announces
  rw [ends_bind, ends_modify, ends_bind, ends_lift, ends_modify, ends_bind, ends_modify, ends_bind]
  -- from here on the mode is dirty and the flag is set
  refine (syncMode_ends _).mono (fun synced s' hsynced => ?_) fun _ _ h => h
  obtain ⟨hpasses, -, hbackend', -⟩ := hsynced
  have hwake : s'.events.wake = true := by
    rw [hpasses.events]
    rfl
  have htimed : s.core.backend.Timed → s'.core.backend.Timed := by
    rw [hbackend']
    show _ → core'.backend.Timed
    rw [hbackend, hidle.backend]
    exact id
  have hserved : ∀ core, Idle s'.core core → Announces s { s' with core := core } := by
    intro core hlast
    refine ⟨hpasses.thread, fun ht => ?_, fun _ => ?_, .inl hwake⟩
    · show core.backend.Timed
      rw [hlast.backend]
      exact htimed ht
    · exact (hpasses.mode fun hclean => nomatch hclean).aside hlast.toAside
  rw [ends_lift]
  exact (Clear.refuse _ _ s'.core (Idle.refl s'.core)).mono (fun _ => hserved) fun _ => hserved

/-- **Every call of a client.** -/
theorem program_announces {event : Event} {program : Serve Unit} (h : event.program = some program) (s : Service) :
    Announces s (endState (program s)) := by
  refine ends_endState.mp ?_
  cases event with
  | acquire caller handle duration resources names =>
      cases h
      rw [ends_bind]
      refine (serveAcquire_ends caller handle duration resources names s).mono (fun _ s' hs' => ?_) fun _ _ hs' => hs'
      rw [ends_pure]
      exact hs'
  | release caller handle =>
      cases h
      exact serveRelease_ends caller handle s
  | watch caller =>
      cases h
      rw [ends_bind, ends_lift]
      refine (watch_idle caller s.core (.refl _)).mono (fun _ core hcore => ?_) fun _ core hcore => hcore.announces
      rw [ends_pure]
      exact hcore.announces
  | unwatch cookie =>
      cases h
      rw [ends_lift]
      exact (unwatch_idle cookie s.core (.refl _)).mono (fun _ core hcore => hcore.announces) fun _ core hcore => hcore.announces
  | died cookie =>
      cases h
      exact serveDied_ends cookie s
  | audio caller hint data =>
      cases h
      exact serveAudio_ends caller hint data s
  | notify =>
      cases h
      rw [ends_modify]
      exact ⟨rfl, id, id, .inl rfl⟩
  | backendRegistered binder => cases h
  | backendDied generation => cases h
  | property ready => cases h
  | wakeUp => cases h
  | finish => cases h

end Clients

/-! ### The start of a pass -/

section Update

variable {s t u : State}

/-- The connection is kept, or it is dropped and the owners make the mode dirty. -/
structure MayDrop (s t : State) : Prop where
  audio : t.audio = s.audio
  timed : s.backend.Timed → t.backend.Timed
  drop : (t.backend.generation = s.backend.generation ∧ t.audioDirty = s.audioDirty) ∨
    (s.backend.generation < t.backend.generation ∧ t.audioDirty = (s.audioDirty || !s.audio.isEmpty))

theorem MayDrop.refl (s : State) : MayDrop s s := ⟨rfl, id, .inl ⟨rfl, rfl⟩⟩

theorem MayDrop.trans (h : MayDrop s t) (h' : MayDrop t u) : MayDrop s u := by
  refine ⟨h'.audio.trans h.audio, fun ht => h'.timed (h.timed ht), ?_⟩
  obtain ⟨hgen, hdirty⟩ | ⟨hgen, hdirty⟩ := h.drop
  · obtain ⟨hgen', hdirty'⟩ | ⟨hgen', hdirty'⟩ := h'.drop
    · exact .inl ⟨hgen'.trans hgen, hdirty'.trans hdirty⟩
    · exact .inr ⟨by omega, by rw [hdirty', hdirty, h.audio]⟩
  · obtain ⟨hgen', hdirty'⟩ | ⟨hgen', hdirty'⟩ := h'.drop
    · exact .inr ⟨by omega, hdirty'.trans hdirty⟩
    · refine .inr ⟨by omega, ?_⟩
      rw [hdirty', hdirty, h.audio, Bool.or_assoc, Bool.or_self]

theorem mayDrop_dropBackend (s : State) : MayDrop s s.dropBackend :=
  ⟨rfl, fun _ _ => nofun, .inr ⟨Nat.lt_succ_self _, rfl⟩⟩

/-- Events of the backend may drop what it knew. -/
theorem updateBackend_mayDrop (s : State) (events : BackendEvents) :
    MayDrop s (s.updateBackend events) ∧ (s.updateBackend events).backend.ready = events.ready := by
  have hdead : MayDrop s (s.dropDead events.deaths) := by
    unfold State.dropDead
    split
    · exact (mayDrop_dropBackend s).trans ⟨rfl, id, .inl ⟨rfl, rfl⟩⟩
    · exact .refl s
  have hready : ∀ t : State, MayDrop t (t.followReady events.ready) ∧
      (t.followReady events.ready).backend.ready = events.ready := by
    intro t
    unfold State.followReady
    split
    · exact ⟨(mayDrop_dropBackend t).trans ⟨rfl, id, .inl ⟨rfl, rfl⟩⟩, rfl⟩
    · exact ⟨⟨rfl, id, .inl ⟨rfl, rfl⟩⟩, rfl⟩
  have hregistered : ∀ t : State, MayDrop t (t.takeRegistered events.registered) ∧
      (t.takeRegistered events.registered).backend.ready = t.backend.ready := by
    intro t
    unfold State.takeRegistered
    split
    · exact ⟨(mayDrop_dropBackend t).trans ⟨rfl, id, .inl ⟨rfl, rfl⟩⟩, rfl⟩
    · exact ⟨.refl t, rfl⟩
  obtain ⟨hfollowed, hsame⟩ := hready (s.dropDead events.deaths)
  obtain ⟨htaken, hsame'⟩ := hregistered ((s.dropDead events.deaths).followReady events.ready)
  exact ⟨(hdead.trans hfollowed).trans htaken, hsame'.trans hsame⟩

end Update

/-! ### Runs -/

section Runs

variable {s s' : Service} {event : Event}

/-- Every event of the backend has been taken. -/
structure Processed (s : Service) : Prop where
  registered : s.events.registered = none
  deaths : s.events.deaths = []
  ready : s.events.ready = s.core.backend.ready

/-- While the wake flag is not set, the thread has seen everything there is. -/
structure Inv (s : Service) : Prop where
  mode : ModeRight s
  timed : s.core.backend.Timed
  awake : s.events.wake = true ∨
    match s.thread with
    | .starting => True
    | .passing => Processed s
    | .waiting wait => Processed s ∧ Punctual s.core wait

theorem init_inv (ticks : List Nat) (replies : List Reply) : Inv (Service.init ticks replies) where
  mode := fun _ => ⟨nofun, fun h => absurd rfl h⟩
  timed := fun _ => nofun
  awake := .inr trivial

theorem updateBackend_inv (h : Inv s) : Inv s.updateBackend := by
  obtain ⟨hdrop, hready⟩ :=
    updateBackend_mayDrop s.core ⟨s.events.deaths, s.events.registered, s.events.ready⟩
  refine ⟨?_, hdrop.timed h.timed, .inr ⟨rfl, rfl, hready.symm⟩⟩
  intro hclean
  have hclean : (s.core.updateBackend _).audioDirty = false := hclean
  show (if _ then s.mode else none) = some true ↔ (s.core.updateBackend _).audio ≠ []
  rw [hdrop.audio]
  obtain ⟨hgen, hdirty⟩ | ⟨hgen, hdirty⟩ := hdrop.drop
  · rw [if_pos hgen]
    exact h.mode (hdirty.symm.trans hclean)
  · -- a new connection has no mode, and no owner
    rw [if_neg (Nat.ne_of_gt hgen)]
    obtain ⟨-, hempty⟩ := Bool.or_eq_false_iff.1 (hdirty.symm.trans hclean)
    simpa using hempty

theorem pass_inv (h : Inv s) (hpassing : s.thread = .passing) : Inv (endState (pass s)) := by
  refine ends_endState.mp ((pass_ends s).mono (fun _ s' hs' => ?_) fun _ _ (h : False) => h.elim)
  obtain ⟨wait, t, hwait, hpunctual, hpasses, hsame⟩ := hs'
  have hcore : s'.core = t.core := by rw [hsame]
  have hevents : s'.events = s.events := by rw [hsame]; exact hpasses.events
  refine ⟨?_, ?_, ?_⟩
  · rw [hsame]
    exact hpasses.mode h.mode
  · rw [hcore]
    exact hpasses.recovered.2.1 h.timed
  · rw [hwait, hevents]
    refine h.awake.imp_right fun hprocessed => ⟨?_, hpunctual⟩
    rw [hpassing] at hprocessed
    refine ⟨by rw [hevents]; exact hprocessed.registered, by rw [hevents]; exact hprocessed.deaths, ?_⟩
    rw [hevents, hcore, hpasses.recovered.1]
    exact hprocessed.ready

theorem Announces.inv (h : Announces s s') (hs : Inv s) (hthread : s.thread ≠ .passing) : Inv s' := by
  refine ⟨h.mode hs.mode, h.timed hs.timed, ?_⟩
  obtain hwake | ⟨hidle, hevents⟩ := h.wake
  · exact .inl hwake
  · rw [hevents, h.thread]
    refine hs.awake.imp_right fun hseen => ?_
    cases hplace : s.thread with
    | starting => trivial
    | passing => exact absurd hplace hthread
    | waiting wait =>
        rw [hplace] at hseen
        obtain ⟨hprocessed, hpunctual⟩ := hseen
        exact ⟨⟨by rw [hevents]; exact hprocessed.registered, by rw [hevents]; exact hprocessed.deaths,
          by rw [hevents, hidle.backend]; exact hprocessed.ready⟩, hpunctual.idle hidle⟩

/-- The event of a client, which takes `mMutex`. -/
theorem client_inv {program : Serve Unit} (hs : Inv s) (hprogram : event.program = some program)
    (hthread : s.thread ≠ .passing) : Inv (endState (program s)) :=
  (program_announces hprogram s).inv hs hthread

theorem client_step (hclient : event.program.isSome) : s.step event =
    match s.thread with
    | .passing => none
    | _ => event.program.map fun program => endState (program s) := by
  cases event <;> first | rfl | cases hclient

/-- **Every step keeps the invariant.** -/
theorem step_inv (hs : Inv s) (hstep : s.step event = some s') : Inv s' := by
  cases hclient : event.program with
  -- A client's call keeps the invariant by what it announces to the thread.
  | some program =>
      rw [client_step (by rw [hclient]; rfl), hclient] at hstep
      split at hstep
      · cases hstep
      · rename_i hthread
        obtain rfl := Option.some.inj hstep
        exact client_inv hs hclient hthread
  | none =>
      cases event with
      -- Events of the world wake the thread, and a wake-up is all it needs.
      | backendRegistered binder =>
          cases hstep
          exact ⟨hs.mode, hs.timed, .inl rfl⟩
      | backendDied generation =>
          cases hstep
          exact ⟨hs.mode, hs.timed, .inl rfl⟩
      | property ready =>
          obtain rfl := Option.some.inj hstep
          split
          · exact hs
          · exact ⟨hs.mode, hs.timed, .inl rfl⟩
      | wakeUp =>
          simp only [Service.step] at hstep
          split at hstep
          · cases hstep
          · obtain rfl := Option.some.inj hstep
            exact updateBackend_inv hs
      -- The thread's pass ends with a wait that is in time.
      | finish =>
          simp only [Service.step] at hstep
          split at hstep
          · rename_i hpassing
            obtain rfl := Option.some.inj hstep
            exact pass_inv hs hpassing
          · cases hstep
      | acquire caller handle duration resources names => cases hclient
      | release caller handle => cases hclient
      | watch caller => cases hclient
      | unwatch cookie => cases hclient
      | died cookie => cases hclient
      | audio caller hint data => cases hclient
      | notify => cases hclient

theorem run_inv (hs : Inv s) {events : List Event} (h : s.run events = some s') : Inv s' := by
  induction events generalizing s with
  | nil =>
      cases h
      exact hs
  | cons event events ih =>
      simp only [Service.run, List.foldlM_cons, Option.bind_eq_bind, Option.bind_eq_some_iff] at h
      obtain ⟨next, hstep, hrest⟩ := h
      exact ih (step_inv hs hstep) hrest

/-- What a wait is in time for, and what has been taken before it. -/
structure InTime (s : Service) (wait : Wait) : Prop where
  /-- A lock that has not expired. -/
  lock : ∀ handle e, s.core.find handle = some e → s.core.time < e.untilNs → wait.By e.untilNs
  /-- A lock that has: it was waited for, or its release has failed. -/
  expired : ∀ handle e, s.core.find handle = some e → e.untilNs ≤ s.core.time →
    wait.By e.untilNs ∨ ∃ time, (some handle, time) ∈ wait.failed
  owner : ∀ owner ∈ s.core.audio, wait.By owner.2
  /-- One second after each failure. -/
  retry : ∀ failure ∈ wait.failed, wait.By (failure.2 + retryNs)
  /-- A mode that is still dirty could not be set. -/
  mode : s.core.backend.replay = false → s.core.audioDirty = true → ∃ time, (none, time) ∈ wait.failed
  replay : s.core.backend.ready = true → s.core.backend.binder ≠ none → s.core.backend.replay = true →
    ∃ time, s.core.backend.replayAt = some time ∧ wait.By time
  events : Processed s

/-- **The expiry thread never oversleeps**, and with a mode that is not dirty, the one that was last
set on this connection is the one that the owners want. -/
theorem expiry_thread_in_time (ticks : List Nat) (replies : List Reply) (events : List Event) (s : Service)
    (wait : Wait) (h : (Service.init ticks replies).run events = some s) (hwait : s.thread = .waiting wait) :
    (s.events.wake = true ∨ InTime s wait) ∧
      (s.core.backend.replay = false → s.core.audioDirty = false →
        (s.mode = some true ↔ s.core.audio ≠ [])) := by
  have hinv := run_inv (init_inv ticks replies) h
  refine ⟨hinv.awake.imp_right fun hseen => ?_, fun _ => hinv.mode⟩
  rw [hwait] at hseen
  obtain ⟨hprocessed, hpunctual⟩ := hseen
  have hattended : ∀ handle e, s.core.find handle = some e → Attended wait s.core handle e.untilNs :=
    fun handle e he => hpunctual.locks handle e.untilNs (by rw [State.deadline, he]; rfl)
  refine ⟨fun handle e he hlive => ?_, fun handle e he _ => ?_, hpunctual.owners, hpunctual.retries,
    hpunctual.mode, fun hready hbinder hreplay => ?_, hprocessed⟩
  · obtain hby | ⟨-, -, hle⟩ := hattended handle e he
    · exact hby
    · omega
  · refine (hattended handle e he).imp_right fun htimed => ?_
    obtain ⟨time, htime, -⟩ := htimed
    exact ⟨time, htime⟩
  · obtain ⟨time, htime⟩ := Option.ne_none_iff_exists'.1 (hinv.timed hreplay)
    exact ⟨time, htime, hpunctual.replay hready hbinder hreplay time htime⟩

/-- A backend comes, a client takes a lock, and the backend does not give it back in time. -/
def failedRelease : List Event :=
  [.backendRegistered 1, .property true, .wakeUp, .finish, .acquire ⟨1000, 10⟩ 0 5 [] ["H"], .wakeUp, .finish]

theorem expiry_thread_in_time_failedRelease : ∃ s wait,
    (Service.init [0, 0, 0, 6000000] [.ok, .ok, .ok, .ok, .ok, .failed]).run failedRelease = some s ∧
      s.thread = .waiting wait ∧ wait = ⟨some 1006000000, [(some 1, 6000000)]⟩ ∧
      (s.events.wake = true ∨ InTime s wait) := by
  have hrun : ((Service.init [0, 0, 0, 6000000] [.ok, .ok, .ok, .ok, .ok, .failed]).run failedRelease).any
      fun s => match s.thread with
        | .waiting wait => wait = ⟨some 1006000000, [(some 1, 6000000)]⟩
        | _ => false := by
    decide +kernel
  simp only [Option.any_eq_true] at hrun
  obtain ⟨s, hs, hthread⟩ := hrun
  split at hthread
  · rename_i wait hwait
    exact ⟨s, wait, hs, hwait, by simpa using hthread, (expiry_thread_in_time _ _ _ s wait hs hwait).1⟩
  · cases hthread

end Runs

end Mindone.Power
