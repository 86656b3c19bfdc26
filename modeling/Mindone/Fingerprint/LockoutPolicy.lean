import Mindone.Fingerprint.LockoutHistory
import Mindone.Fingerprint.LockoutTracker

/-!
# Mindone.Fingerprint.LockoutPolicy

The policy of the lockout tracker over whole runs. The log says what has happened since the last
successful `reset`; both parts relate it to the lock by an invariant that every move keeps:

* **a save that fails shuts the tracker** for 30 s from the moment at which it was seen to fail,
  whatever the other saves do (`Lock.Shut`);
* while all saves succeed, also across restarts, the counters of the lock are at least the
  failures of the log, and **each fifth failure has its 30 s** (`Lock.Tallied`). Of the record only
  what `load` gives back is used, so that a restart is no different from any other step. That the
  store gives it back is proved of `save` and `load` (`Restored.reloads`).
-/

namespace Mindone.Fingerprint

/-! ### Reading the log -/

/-- The failures counted since the last reset. -/
def failures : List Event → Nat
  | [] => 0
  | .counted _ :: log => failures log + 1
  | .reset :: _ => 0
  | .saved _ _ :: log | .expired :: log => failures log

/-- The failures counted since the last reset or expiry. -/
def burst : List Event → Nat
  | [] => 0
  | .counted _ :: log => burst log + 1
  | .reset :: _ | .expired :: _ => 0
  | .saved _ _ :: log => burst log

/-- When the fifth failures after a reset or an expiry were counted, since the last reset. -/
def fifths : List Event → List Moment
  | [] => []
  | .counted now :: log => if burst log = 4 then now :: fifths log else fifths log
  | .reset :: _ => []
  | .saved _ _ :: log | .expired :: log => fifths log

/-- When saves were seen to fail, since the last reset. -/
def failedSaves : List Event → List Moment
  | [] => []
  | .saved _ (.failed seen) :: log => seen :: failedSaves log
  | .reset :: _ => []
  | .saved _ .ok :: log | .counted _ :: log | .expired :: log => failedSaves log

/-- What was saved last. -/
def stored (first : State) : List Event → State
  | [] => first
  | .saved state _ :: _ => state
  | .counted _ :: log | .reset :: log | .expired :: log => stored first log

/-- It is no save that failed. -/
def Event.Succeeded : Event → Prop
  | .saved _ saving => saving = .ok
  | _ => True

instance (event : Event) : Decidable event.Succeeded :=
  match event with
  | .saved _ saving => inferInstanceAs (Decidable (saving = .ok))
  | .counted _ | .expired | .reset => .isTrue trivial

def AllSaved (log : List Event) : Prop := ∀ event ∈ log, event.Succeeded

instance : DecidablePred AllSaved :=
  fun log => inferInstanceAs (Decidable (∀ event ∈ log, event.Succeeded))

/-! ### A blocked tracker -/

/-- The lock blocks at `now`. -/
def Lock.Blocks (l : Lock) (now : Moment) : Prop :=
  l.failed = 20 ∨ (l.timed = true ∧ now.steady < l.deadline)

namespace Tracker

variable {t : Tracker} {check : Check}

theorem expire_lock_of_blocks (hsound : t.Sound) (h : t.Blocks check.now) :
    (t.expire check).toLock = t.toLock := by
  refine expire_lock_of_lt fun htimed => ?_
  rcases h with hfailed | ⟨-, hlt⟩
  · rw [hsound.permanent hfailed] at htimed
    cases htimed
  · exact hlt

/-- A blocked tracker says so. -/
theorem notifyLockout_of_blocks (hsound : t.Sound) (h : t.Blocks check.now) (cb : Nat)
    (now : Moment) : (t.notifyLockout cb check now).1 = true := by
  have hlock := expire_lock_of_blocks hsound h
  unfold notifyLockout
  dsimp only
  rw [hlock]
  split
  · rfl
  · rename_i hfailed
    rcases h with heq | ⟨htimed, -⟩
    · exact absurd (Nat.le_of_eq heq.symm) hfailed
    · rw [if_pos htimed]

/-- And it counts nothing. -/
theorem addFailedAttempt_of_blocks (hsound : t.Sound) (h : t.Blocks check.now) (now : Moment)
    (saving : Saving) : (t.addFailedAttempt check now saving).2.toLock = t.toLock := by
  have hlock := expire_lock_of_blocks hsound h
  unfold addFailedAttempt
  dsimp only
  rw [hlock, if_pos]
  · exact hlock
  · rcases h with heq | ⟨htimed, -⟩
    · exact .inl (Nat.le_of_eq heq.symm)
    · exact .inr htimed

end Tracker

/-! ### A failed save shuts the tracker -/

/-- The 30 s after `seen` are over, or the lock blocks until then. -/
def Lock.ShutFrom (l : Lock) (seen now : Moment) : Prop :=
  l.failed = 20 ∨ seen.steady + 30000 ≤ now.steady ∨
    (l.timed = true ∧ seen.steady + 30000 ≤ l.deadline)

/-- The lock is shut from every save that was seen to fail. -/
structure Lock.Shut (l : Lock) (now : Moment) : Prop where
  sound : l.Sound
  shut : ∀ seen ∈ failedSaves l.log, seen.steady ≤ now.steady ∧ l.ShutFrom seen now

namespace Lock

variable {l : Lock} {now seen : Moment}

/-- A lock that has failed closed is shut from every earlier moment. -/
theorem shutFrom_failClosed (hfailed : l.failed ≤ 20) {earlier : Moment}
    (hle : earlier.steady ≤ seen.steady) : (l.failClosed seen).ShutFrom earlier seen := by
  unfold failClosed
  split
  · rename_i hge
    exact .inl (Nat.le_antisymm hfailed hge)
  · exact .inr (.inr ⟨rfl, Nat.add_le_add_right hle 30000⟩)

/-- What a failing save leaves. -/
theorem Shut.failClosed {l' : Lock} (h : l.Shut now) (hafter : now.steady ≤ seen.steady)
    (hfailed : l'.failed ≤ 20) (hlog : failedSaves l'.log = seen :: failedSaves l.log) :
    (l'.failClosed seen).Shut seen := by
  refine ⟨sound_failClosed hfailed seen, fun earlier hmem => ?_⟩
  rw [failClosed_log, hlog] at hmem
  have hle : earlier.steady ≤ seen.steady := by
    rcases List.mem_cons.mp hmem with rfl | hmem
    · exact Nat.le_refl _
    · exact Nat.le_trans (h.shut earlier hmem).1 hafter
  exact ⟨hle, shutFrom_failClosed hfailed hle⟩

/-- What a succeeding save leaves: the lock had to be free to move. -/
theorem Shut.moved {l' : Lock} (h : l.Shut now) (hsound : l'.Sound)
    (hlog : failedSaves l'.log = failedSaves l.log) (hfailed : l.failed ≠ 20)
    (hfree : l.timed = true → l.deadline ≤ now.steady) : l'.Shut now := by
  refine ⟨hsound, fun seen hmem => ?_⟩
  rw [hlog] at hmem
  obtain ⟨hle, hshut⟩ := h.shut seen hmem
  refine ⟨hle, .inr (.inl ?_)⟩
  rcases hshut with heq | hover | ⟨htimed, hdeadline⟩
  · exact absurd heq hfailed
  · exact hover
  · exact hdeadline.trans (hfree htimed)

theorem failed_ne_of_timed (h : l.Sound) (htimed : l.timed = true) : l.failed ≠ 20 := by
  intro heq
  rw [h.permanent heq] at htimed
  cases htimed

theorem kept_shut : Kept (fun n m => n.steady ≤ m.steady) Shut where
  read := fun h hle => ⟨h.sound, fun seen hmem => by
    obtain ⟨hseen, hshut⟩ := h.shut seen hmem
    exact ⟨hseen.trans hle, hshut.imp_right (Or.imp_left (·.trans hle))⟩⟩
  expire := fun h htimed hdue => h.moved (h.sound.unblock.relog _) rfl
    (failed_ne_of_timed h.sound htimed) fun _ => hdue
  expireFails := fun h _ _ hafter => h.failClosed hafter h.sound.failed_le rfl
  count := fun {l now} h hfailed huntimed => by
    refine h.moved ((h.sound.count hfailed huntimed now).relog _) ?_ (Nat.ne_of_lt hfailed) ?_
    · show failedSaves (l.count now).log = _
      rw [count_log]
      rfl
    · rw [huntimed]
      nofun
  countFails := fun {l now seen} h hfailed huntimed hafter => by
    refine h.failClosed hafter (h.sound.count hfailed huntimed now).failed_le ?_
    show seen :: failedSaves (l.count now).log = _
    rw [count_log]
    rfl
  reset := fun h => ⟨h.sound.zero.relog _, fun _ hmem => absurd hmem List.not_mem_nil⟩
  resetFails := fun h => h.failClosed (Nat.le_refl _) h.sound.failed_le rfl

end Lock

theorem construct_shut {loaded : Option State} (hloaded : Loads loaded) (now : Moment)
    (written : Saving) : (Tracker.construct loaded now written []).Shut now := by
  refine ⟨Tracker.construct_sound hloaded now written [], ?_⟩
  cases loaded with
  | none =>
      intro seen hmem
      have hlog : seen = now := by
        cases written with
        | ok => exact absurd hmem List.not_mem_nil
        | failed _ => exact List.mem_singleton.mp hmem
      rw [hlog]
      exact ⟨Nat.le_refl _, .inr (.inr ⟨rfl, Nat.le_refl _⟩)⟩
  | some state =>
      rw [Tracker.construct_some]
      exact fun _ hmem => absurd hmem List.not_mem_nil

/-! ### The failures of a history -/

/-- Both clocks have gone on by the same time. -/
def Moment.Together (n m : Moment) : Prop :=
  n.steady ≤ m.steady ∧ m.real + n.steady = n.real + m.steady

instance : DecidableRel Moment.Together := fun _ _ => inferInstanceAs (Decidable (_ ∧ _))

/-- The 30 s after a fifth failure are over, or the lock blocks until then, and its record says
so. -/
def Lock.BlocksFrom (l : Lock) (fifth now : Moment) : Prop :=
  l.failed = 20 ∨ fifth.real + 30000 ≤ now.real ∨
    (l.timed = true ∧ fifth.real + 30000 ≤ l.deadlineMs ∧
      fifth.real + 30000 + now.steady ≤ l.deadline + now.real)

/-- The lock counts at least the failures of the log, blocks after each fifth, and is saved. -/
structure Lock.Tallied (first : State) (l : Lock) (now : Moment) : Prop where
  sound : l.Sound
  stored : stored first l.log = l.state
  failures : failures l.log ≤ l.failed
  burst : burst l.log ≤ l.failedTimed ∨ l.failed = 20
  fifths : ∀ fifth ∈ fifths l.log, fifth.real ≤ now.real ∧ l.BlocksFrom fifth now

namespace Lock

variable {first : State} {l : Lock} {now m : Moment}

theorem BlocksFrom.read {fifth : Moment} (h : l.BlocksFrom fifth now) (hafter : now.Together m) :
    l.BlocksFrom fifth m := by
  obtain ⟨hsteady, htogether⟩ := hafter
  rcases h with heq | hover | ⟨htimed, hrecord, hdeadline⟩
  · exact .inl heq
  · exact .inr (.inl (by omega))
  · exact .inr (.inr ⟨htimed, hrecord, by omega⟩)

theorem Tallied.read (h : l.Tallied first now) (hafter : now.Together m) : l.Tallied first m := by
  refine { h with fifths := fun fifth hmem => ?_ }
  obtain ⟨hle, hblocks⟩ := h.fifths fifth hmem
  refine ⟨?_, hblocks.read hafter⟩
  obtain ⟨hsteady, htogether⟩ := hafter
  omega

/-- A fifth failure after which the lock is free is over. -/
theorem BlocksFrom.finished {fifth : Moment} (h : l.BlocksFrom fifth now) (hfailed : l.failed ≠ 20)
    (hfree : l.timed = true → l.deadline ≤ now.steady) : fifth.real + 30000 ≤ now.real := by
  rcases h with heq | hover | ⟨htimed, -, hdeadline⟩
  · exact absurd heq hfailed
  · exact hover
  · have := hfree htimed
    omega

theorem Tallied.expire (h : l.Tallied first now) (htimed : l.timed = true)
    (hdue : l.deadline ≤ now.steady) :
    ((l.unblock.persist .ok).note .expired).Tallied first now where
  sound := h.sound.unblock.relog _
  stored := rfl
  failures := h.failures
  burst := .inl (Nat.le_refl 0)
  fifths := fun fifth hmem => by
    obtain ⟨hle, hblocks⟩ := h.fifths fifth hmem
    exact ⟨hle, .inr (.inl (hblocks.finished (failed_ne_of_timed h.sound htimed) fun _ => hdue))⟩

/-- The counters of a lock that has counted. -/
theorem count_failed (l : Lock) (now : Moment) : (l.count now).failed = l.failed + 1 := by
  unfold count
  dsimp only
  split <;> split <;> rfl

theorem count_failedTimed (l : Lock) (now : Moment) :
    (l.count now).failedTimed = l.failedTimed + 1 ∨ 20 ≤ (l.count now).failed := by
  rw [count_failed]
  unfold count Lock.note
  dsimp only
  split
  · rename_i hfifth
    simp only [if_neg (Nat.not_le.mpr hfifth.2), ge_iff_le, true_or]
  · split
    · rename_i hge
      exact .inr hge
    · exact .inl rfl

/-- A lock that has counted a fifth failure. -/
theorem count_fifth (hburst : 4 ≤ l.failedTimed) (hfailed : l.failed + 1 < 20) :
    (l.count now).timed = true ∧ (l.count now).deadline = now.steady + 30000 ∧
      (l.count now).deadlineMs = now.real + 30000 := by
  have hfifth : l.failedTimed + 1 ≥ 5 ∧ l.failed + 1 < 20 := ⟨Nat.succ_le_succ hburst, hfailed⟩
  unfold count Lock.note
  simp only [if_pos hfifth, if_neg (Nat.not_le.mpr hfailed), ge_iff_le, and_self]

/-- A failure that is counted is in the log. -/
theorem Tallied.count (h : l.Tallied first now) (hfailed : l.failed < 20)
    (huntimed : l.timed = false) : ((l.count now).persist .ok).Tallied first now := by
  have hsound := h.sound.count hfailed huntimed now
  have hburst : Fingerprint.burst l.log ≤ l.failedTimed := h.burst.resolve_right (Nat.ne_of_lt hfailed)
  refine ⟨hsound.relog _, rfl, ?_, ?_, ?_⟩
  · show Fingerprint.failures (l.count now).log ≤ (l.count now).failed
    rw [count_log, count_failed]
    exact Nat.succ_le_succ h.failures
  · show Fingerprint.burst (l.count now).log ≤ (l.count now).failedTimed ∨ (l.count now).failed = 20
    rw [count_log]
    refine (count_failedTimed l now).imp (fun heq => ?_) fun hge =>
      Nat.le_antisymm hsound.failed_le hge
    rw [heq]
    exact Nat.succ_le_succ hburst
  · intro fifth hmem
    have hmem : fifth ∈ Fingerprint.fifths (.counted now :: l.log) := by
      rw [← count_log]
      exact hmem
    have hold : fifth ∈ Fingerprint.fifths l.log →
        fifth.real ≤ now.real ∧ ((l.count now).persist .ok).BlocksFrom fifth now := by
      intro hmem
      obtain ⟨hle, hblocks⟩ := h.fifths fifth hmem
      refine ⟨hle, .inr (.inl (hblocks.finished (Nat.ne_of_lt hfailed) fun htimed => ?_))⟩
      rw [huntimed] at htimed
      cases htimed
    unfold Fingerprint.fifths at hmem
    split at hmem
    · rename_i hfour
      rcases List.mem_cons.mp hmem with rfl | hmem
      · -- the fifth failure is the one that is counted
        refine ⟨Nat.le_refl _, ?_⟩
        rcases Nat.lt_or_ge (l.failed + 1) 20 with hlt | hge
        · obtain ⟨htimed, hdeadline, hrecord⟩ := count_fifth (hfour ▸ hburst) hlt
          refine .inr (.inr ⟨htimed, Nat.le_of_eq hrecord.symm, ?_⟩)
          show _ ≤ (l.count fifth).deadline + _
          rw [hdeadline]
          omega
        · refine .inl ?_
          show (l.count fifth).failed = 20
          rw [count_failed]
          omega
      · exact hold hmem
    · exact hold hmem

theorem Tallied.reset (h : l.Tallied first now) :
    ((l.zero.persist .ok).note .reset).Tallied first now where
  sound := h.sound.zero.relog _
  stored := rfl
  failures := Nat.le_refl 0
  burst := .inl (Nat.le_refl 0)
  fifths := fun _ hmem => absurd hmem List.not_mem_nil

theorem kept_tallied (first : State) :
    Kept Moment.Together fun l now => AllSaved l.log → l.Tallied first now where
  read := fun h hafter hsaved => (h hsaved).read hafter
  expire := fun h htimed hdue hsaved => Tallied.expire
    (h fun _ hmem => hsaved _ (.tail _ (.tail _ hmem))) htimed hdue
  expireFails := fun {l now seen} _ _ _ _ hsaved => by
    rw [failClosed_log] at hsaved
    exact absurd (hsaved _ (.head _)) nofun
  count := fun {l now} h hfailed huntimed hsaved => by
    refine Tallied.count (h fun event hmem => hsaved event (.tail _ ?_)) hfailed
      huntimed
    rw [count_log]
    exact .tail _ hmem
  countFails := fun _ _ _ _ hsaved => by
    rw [failClosed_log] at hsaved
    exact absurd (hsaved _ (.head _)) nofun
  reset := fun h hsaved => Tallied.reset
    (h fun _ hmem => hsaved _ (.tail _ (.tail _ hmem)))
  resetFails := fun _ hsaved => by
    rw [failClosed_log] at hsaved
    exact absurd (hsaved _ (.head _)) nofun

end Lock

/-! ### Restarts -/

/-- What a record that is loaded says about the log. -/
structure State.Records (s : State) (log : List Event) (now : Moment) : Prop where
  failures : failures log ≤ s.failed.toNat
  burst : burst log ≤ s.failedTimed.toNat ∨ s.failed.toNat = 20
  fifths : ∀ fifth ∈ fifths log, fifth.real ≤ now.real ∧
    (s.failed.toNat = 20 ∨ fifth.real + 30000 ≤ now.real ∨
      (s.deadlineMs ≠ 0 ∧ fifth.real + 30000 ≤ s.deadlineMs.toNat))

theorem Lock.Tallied.records {first : State} {l : Lock} {now m : Moment}
    (h : l.Tallied first now) (hle : now.real ≤ m.real) : l.state.Records l.log m := by
  obtain ⟨hfailed, hfailedTimed, hdeadline⟩ := h.sound.state_toNat
  refine ⟨?_, ?_, fun fifth hmem => ?_⟩
  · rw [hfailed]
    exact h.failures
  · rw [hfailed, hfailedTimed]
    exact h.burst
  · obtain ⟨hfifth, hblocks⟩ := h.fifths fifth hmem
    refine ⟨hfifth.trans hle, ?_⟩
    rw [hfailed, hdeadline]
    rcases hblocks with heq | hover | ⟨-, hrecord, -⟩
    · exact .inl heq
    · exact .inr (.inl (hover.trans hle))
    · refine .inr (.inr ⟨fun hzero => ?_, hrecord⟩)
      rw [hzero] at hdeadline
      have : l.deadlineMs = 0 := hdeadline.symm
      omega

/-- A restart that loads the record, or that loads nothing while the record has less than 20
failures. -/
def State.Reloads (s : State) (loaded : Option State) : Prop :=
  loaded = some s ∨ (loaded = none ∧ s.failed.toNat ≠ 20)

namespace Tracker

/-- A restart begins with what was saved last. -/
theorem construct_tallied {first s : State} {loaded : Option State} {now : Moment}
    {written : Saving} {log : List Event} (hs : s.Allowed) (hstored : stored first log = s)
    (hrecords : s.Records log now) (hreloads : s.Reloads loaded) :
    (construct loaded now written log).Tallied first now := by
  obtain ⟨hfailures, hburst, hfifths⟩ := hrecords
  have hloads : Loads loaded := by
    intro state hmem
    rcases hreloads with rfl | ⟨rfl, -⟩
    · obtain rfl := Option.some_inj.mp hmem
      exact hs
    · cases hmem
  have hsound := construct_sound hloads now written log
  rcases hreloads with rfl | ⟨rfl, hfew⟩
  · rw [construct_some] at hsound ⊢
    refine ⟨hsound, ?_, hfailures, hburst, fun fifth hmem => ?_⟩
    · unfold Lock.state
      simp only [hstored, BitVec.ofNat_toNat, BitVec.setWidth_eq]
    · obtain ⟨hle, hrecord⟩ := hfifths fifth hmem
      refine ⟨hle, hrecord.imp_right (Or.imp_right ?_)⟩
      rintro ⟨hne, hdeadline⟩
      refine ⟨decide_eq_true hne, hdeadline, ?_⟩
      dsimp only
      rw [if_pos hne]
      omega
  · have hless : s.failed.toNat ≤ 19 := by
      have := hs.failed
      omega
    refine ⟨hsound, rfl, hfailures.trans hless, .inl ?_, fun fifth hmem => ?_⟩
    · exact (hburst.resolve_right hfew).trans hs.failedTimed
    · obtain ⟨hle, -⟩ := hfifths fifth hmem
      refine ⟨hle, .inr (.inr ⟨rfl, Nat.add_le_add_right hle 30000, ?_⟩)⟩
      show _ ≤ now.steady + 30000 + now.real
      omega

/-! ### Histories -/

/-- A tracker after some calls. -/
def life (loaded : Option State) (now : Moment) (written : Saving) (calls : List Call) : Tracker :=
  (construct loaded now written []).runCalls calls

/-- A tracker after some calls and restarts. -/
def history (loaded : Option State) (now : Moment) (written : Saving) (turns : List Turn) : Tracker :=
  (construct loaded now written []).runTurns turns

/-- The clocks go on together from `n` through the turns to `m`; a restart may change what the
steady clock starts from. -/
def Together : Moment → List Turn → Moment → Prop
  | n, [], m => n.Together m
  | n, .call c :: turns, m =>
      List.IsChain Moment.Together (n :: c.readings) ∧ Together (c.readings.getLastD n) turns m
  | n, .restart _ now _ :: turns, m => n.real ≤ now.real ∧ Together now turns m

instance decidableTogether : ∀ n turns m, Decidable (Together n turns m)
  | n, [], m => inferInstanceAs (Decidable (n.Together m))
  | n, .call c :: turns, m =>
      have := decidableTogether (c.readings.getLastD n) turns m
      inferInstanceAs (Decidable (_ ∧ _))
  | _, .restart _ now _ :: turns, m =>
      have := decidableTogether now turns m
      inferInstanceAs (Decidable (_ ∧ _))

/-- Each restart loads what `reloads` allows for the state that was saved last. -/
def Reloads (reloads : State → Option State → Prop) (first : State) : Tracker → List Turn → Prop
  | _, [] => True
  | t, .call c :: turns => Reloads reloads first (c.run t) turns
  | t, .restart loaded now written :: turns =>
      reloads (stored first t.log) loaded ∧
        Reloads reloads first (construct loaded now written t.log) turns

/-- Turns with all saves successful keep the tally. -/
theorem turns_tallied {first : State} {t : Tracker} {turns : List Turn} {n m : Moment}
    (ht : AllSaved t.log → t.Tallied first n) (hreloads : Reloads State.Reloads first t turns)
    (htogether : Together n turns m) :
    AllSaved (t.runTurns turns).log → (t.runTurns turns).Tallied first m := by
  induction turns generalizing t n with
  | nil => exact fun hsaved => (ht hsaved).read htogether
  | cons turn turns ih =>
      cases turn with
      | call c =>
          obtain ⟨hchain, htogether⟩ := htogether
          exact ih ((Lock.kept_tallied first).call ht hchain) hreloads htogether
      | restart loaded now written =>
          obtain ⟨hloaded, hreloads⟩ := hreloads
          obtain ⟨hle, htogether⟩ := htogether
          refine ih (fun hsaved => ?_) hreloads htogether
          have hlog : AllSaved t.log := by
            rcases construct_log loaded now written t.log with hlog | ⟨_, _, _, hlog⟩
            · exact fun event hmem => hsaved event (hlog ▸ hmem)
            · exact fun event hmem => hsaved event (hlog ▸ .tail _ hmem)
          have htallied := ht hlog
          refine construct_tallied htallied.sound.allowed htallied.stored ?_ ?_
          · exact htallied.records hle
          · rw [← htallied.stored]
            exact hloaded

/-- **The counters behind every history in which all saves succeed.** -/
theorem history_tallied {first : State} {loaded : Option State} {now m : Moment} {written : Saving}
    {turns : List Turn} (hfirst : first.Allowed) (hloaded : first.Reloads loaded)
    (hreloads : Reloads State.Reloads first (construct loaded now written []) turns)
    (htogether : Together now turns m)
    (hsaved : AllSaved (history loaded now written turns).log) :
    (history loaded now written turns).Tallied first m := by
  refine turns_tallied (fun _ => construct_tallied hfirst rfl ?_ hloaded) hreloads htogether hsaved
  exact ⟨Nat.zero_le _, .inl (Nat.zero_le _), fun _ hmem => absurd hmem List.not_mem_nil⟩

end Tracker

/-! ### The store behind a restart -/

/-- A directory that has what a log says: the first state was there to be loaded, each save of the
log has returned `true` on it, and loads came between. -/
inductive Backed (userId : BitVec 32) (first : State) : List Event → Disk → Prop
  | start {disk : Disk} (h : disk.Visible userId first) : Backed userId first [] disk
  | saved {log : List Event} {disk disk' : Disk} {state : State} {outcomes : List Outcome}
      (h : Backed userId first log disk)
      (hsave : save userId state (disk.with outcomes) = .ok true disk') :
      Backed userId first (.saved state .ok :: log) disk'
  | loaded {log : List Event} {disk disk' : Disk} {result : Option State}
      {outcomes : List Outcome} (h : Backed userId first log disk)
      (hload : load userId (disk.with outcomes) = .ok result disk') : Backed userId first log disk'
  | other {log : List Event} {disk : Disk} {event : Event} (h : Backed userId first log disk)
      (hevent : ∀ state saving, event ≠ .saved state saving) :
      Backed userId first (event :: log) disk

section Restarts

variable {userId : BitVec 32} {first : State}

/-- **A load returns only states that `decode` allows.** -/
theorem loads_of_load {disk disk' : Disk} {loaded : Option State}
    (h : load userId disk = .ok loaded disk') : Loads loaded := by
  intro s hs
  rcases (@load_ends userId disk).of_ok h with ⟨-, -, k, -, -, hresult⟩ | ⟨-, hvisible⟩
  · rw [(hresult s hs).2]
    exact State.empty_allowed
  · obtain ⟨record, -, hdecode, -⟩ := hvisible s hs
    exact decode_allowed hdecode

/-- A load where a state is to be seen leaves the files and finds no other state. -/
theorem load_of_visible {disk disk' : Disk} {s : State} {loaded : Option State}
    {outcomes : List Outcome} (hvisible : disk.Visible userId s)
    (h : load userId (disk.with outcomes) = .ok loaded disk') :
    disk.Same disk' ∧ (loaded = some s ∨ loaded = none) := by
  obtain ⟨record, hrecord, hdecode, -⟩ := hvisible
  rcases (@load_ends userId (disk.with outcomes)).of_ok h with ⟨-, hnone, -⟩ | ⟨hsame, hfound⟩
  · exact absurd (hrecord.symm.trans hnone) nofun
  · refine ⟨hsame, ?_⟩
    cases loaded with
    | none => exact .inr rfl
    | some s' =>
        obtain ⟨record', hrecord', hdecode', -⟩ := hfound s' rfl
        have heq : record' = record :=
          Record.eq_of_bytes (Option.some_inj.mp (hrecord'.symm.trans hrecord))
        rw [heq, hdecode] at hdecode'
        exact .inl hdecode'.symm

/-- What was saved last is there to be seen. -/
theorem Backed.visible {log : List Event} {disk : Disk} (h : Backed userId first log disk)
    (hallowed : ∀ state saving, .saved state saving ∈ log → state.Allowed) :
    disk.Visible userId (stored first log) := by
  induction h with
  | start h => exact h
  | @saved log disk disk' state outcomes _ hsave _ =>
      have hbehind := (save_ok hsave).2
      refine ⟨encode userId state kMagic, ?_, decode_encode (hallowed _ _ (.head _)), .inl ?_⟩
      · rw [hbehind.1]
        rfl
      · rw [hbehind.1]
        rfl
  | loaded _ hload ih =>
      obtain ⟨record, hrecord, hdecode, hcounts⟩ := ih hallowed
      have hsame := (load_of_visible ⟨record, hrecord, hdecode, hcounts⟩ hload).1
      exact ⟨record, hsame.1 ▸ hrecord, hdecode, hsame.1 ▸ hcounts⟩
  | @other log disk event _ hevent ih =>
      have hstored : stored first (event :: log) = stored first log := by
        cases event with
        | saved state saving => exact absurd rfl (hevent state saving)
        | counted now => rfl
        | expired => rfl
        | reset => rfl
      rw [hstored]
      exact ih fun state saving hmem => hallowed state saving (.tail _ hmem)

namespace Tracker

/-- Each restart loads from a directory that has what the log says, and successfully when that is
a record of all 20 failures. -/
def Restored (userId : BitVec 32) (first : State) : Tracker → List Turn → Prop
  | _, [] => True
  | t, .call c :: turns => Restored userId first (c.run t) turns
  | t, .restart loaded now written :: turns =>
      (∃ disk outcomes disk', Backed userId first t.log disk ∧
        load userId (disk.with outcomes) = .ok loaded disk' ∧
        ((stored first t.log).failed.toNat = 20 → loaded ≠ none)) ∧
      Restored userId first (construct loaded now written t.log) turns

/-- **The store keeps what the policy relies on** at every restart. -/
theorem Restored.reloads {t : Tracker} {turns : List Turn} (ht : t.toLock.Accepted)
    (h : Restored userId first t turns) : Reloads State.Reloads first t turns := by
  induction turns generalizing t with
  | nil => trivial
  | cons turn turns ih =>
      cases turn with
      | call c =>
          exact ih (Lock.kept_accepted.call ht (chain_true ⟨0, 0, by decide⟩ _)) h
      | restart loaded now written =>
          obtain ⟨⟨disk, outcomes, disk', hbacked, hload, htwenty⟩, h⟩ := h
          refine ⟨?_, ih ?_ h⟩
          · exact (load_of_visible (hbacked.visible ht.2) hload).2.imp_right
              fun hnone => ⟨hnone, fun heq => htwenty heq hnone⟩
          · exact construct_accepted (loads_of_load hload) now written ht.2

end Tracker

end Restarts

/-- A lock blocks within the 30 s of a fifth failure. -/
theorem Lock.Tallied.blocks {first : State} {l : Lock} {now fifth : Moment}
    (h : l.Tallied first now) (hmem : fifth ∈ Fingerprint.fifths l.log) (hlt : now.real < fifth.real + 30000) :
    l.Blocks now := by
  rcases (h.fifths fifth hmem).2 with heq | hover | ⟨htimed, -, hdeadline⟩
  · exact .inl heq
  · omega
  · exact .inr ⟨htimed, by omega⟩

/-- A lock blocks within the 30 s of a failed save. -/
theorem Lock.Shut.blocks {l : Lock} {now seen : Moment} (h : l.Shut now)
    (hmem : seen ∈ failedSaves l.log) (hlt : now.steady < seen.steady + 30000) :
    l.Blocks now := by
  rcases (h.shut seen hmem).2 with heq | hover | ⟨htimed, hdeadline⟩
  · exact .inl heq
  · omega
  · exact .inr ⟨htimed, by omega⟩

namespace Tracker

/-- Both clocks after so many times 30 s. -/
def halfMinute (k : Fin 8) : Moment := ⟨30000 * k, 30000 * k, by omega⟩

def attemptAt (k : Fin 8) : Turn :=
  .call (.addFailedAttempt ⟨halfMinute k, .ok, false⟩ (halfMinute k) .ok)

/-- The fifth attempt after a start from the empty record: its save fails, and 29 s later the
tracker still blocks. -/
def failingCalls : List Call :=
  List.replicate 4 (.addFailedAttempt ⟨halfMinute 0, .ok, false⟩ (halfMinute 0) .ok) ++
    [.addFailedAttempt ⟨halfMinute 0, .ok, false⟩ (halfMinute 0) (.failed (halfMinute 1))]

/-- Five failures, and a restart that loads them. -/
def fiveTurns : List Turn :=
  List.replicate 5 (attemptAt 0) ++ [.restart (some ⟨5, 5, 30000⟩) (halfMinute 0) .ok]

/-- 20 failures, 30 s after each fifth; a restart at which the record cannot be read, and one more
failure 30 s later. -/
def unreadTurns : List Turn :=
  List.replicate 5 (attemptAt 0) ++ List.replicate 5 (attemptAt 1) ++
    List.replicate 5 (attemptAt 2) ++ List.replicate 5 (attemptAt 3) ++
      [.restart none (halfMinute 3) .ok, attemptAt 4]

end Tracker

end Mindone.Fingerprint
