import Mindone.Power.ExpiryThreadLaws

/-!
# Mindone.Power.ExpiryThreadTables

**On the tables the service with its thread does what the one of `Mindone.Power.LocksRuns` does.** A
program here only notes more about the one there (`Carries`); the two sections of a pass are one call
of `expire`, with the events that the first of them takes. So what is proved of runs of calls holds of
the tables whenever the thread is not in a pass (`run_tables`).
-/

namespace Mindone.Power

open Lib

section Programs

variable {α β γ δ : Type}

/-- A result without what is noted about the tables. -/
def forget (f : α → β) : EStateM.Result Errno Service α → EStateM.Result Errno State β
  | .ok a s => .ok (f a) s.core
  | .error errno s => .error errno s.core

/-- The program does on the tables what the other one does. -/
def Carries (f : α → β) (q : Serve α) (p : Op β) : Prop := ∀ s, forget f (q s) = p s.core

variable {f : α → β} {g : γ → δ} {q : Serve α} {p : Op β}

/-- A program of the tables carries itself. -/
theorem carries_lift (p : Op α) : Carries id (lift p) p := by
  intro s
  unfold lift
  cases p s.core with
  | ok a core => rfl
  | error errno core => rfl

theorem carries_pure (f : α → β) (a : α) : Carries f (pure a) (pure (f a)) := fun _ => rfl

/-- Programs one after the other. -/
theorem Carries.bind {k : α → Serve γ} {l : β → Op δ} (hq : Carries f q p)
    (hk : ∀ a, Carries g (k a) (l (f a))) : Carries g (q >>= k) (p >>= l) := by
  intro s
  have hs := hq s
  cases hrun : q s with
  | ok a s' =>
      rw [hrun] at hs
      rw [run_bind_ok hrun, run_bind_ok hs.symm]
      exact hk a s'
  | error errno s' =>
      rw [hrun] at hs
      rw [run_bind_error hrun, run_bind_error hs.symm]
      rfl

/-- Both look at the tables. -/
theorem carries_get {k : Service → Serve γ} {l : State → Op δ}
    (h : ∀ s : Service, Carries g (k s) (l s.core)) : Carries g (get >>= k) (get >>= l) :=
  fun s => h s s

/-- The service is looked at where the tables are not. -/
theorem Carries.looked {k : Service → Serve γ} {l : Op δ} (h : ∀ s, Carries g (k s) l) :
    Carries g (get >>= k) l := fun s => h s s

/-- What is only noted can be left out. -/
theorem Carries.noted {k : Unit → Serve γ} {l : Op δ} (h : Service → Service)
    (hcore : ∀ s, (h s).core = s.core) (hk : Carries g (k ()) l) :
    Carries g (modify h >>= k) l := by
  intro s
  show forget g (k () (h s)) = l s.core
  rw [hk, hcore]

/-- The wake flag is no part of the tables. -/
theorem Carries.thenChanged (hq : Carries f q p) : Carries f (thenChanged q) p := by
  intro s
  rw [← hq s]
  unfold Power.thenChanged
  cases q s with
  | ok a s' => rfl
  | error errno s' => rfl

theorem carries_ite {c : Prop} [Decidable c] {q' : Serve α} {p' : Op β} (h : Carries f q p)
    (h' : Carries f q' p') : Carries f (if c then q else q') (if c then p else p') := by
  split
  · exact h
  · exact h'

/-- `syncMode` notes the audio mode that `syncAudio` has set. -/
theorem carries_syncMode : Carries id syncMode syncAudio := by
  have hsync : Carries id syncMode (syncAudio >>= pure) := by
    refine .looked fun s => (carries_lift syncAudio).bind fun synced => ?_
    exact .noted _ (fun _ => rfl) (carries_pure id synced)
  rw [bind_pure] at hsync
  exact hsync

/-! ### Calls -/

/-- The checks and the rest of `acquire` are its own text, cut where the flag has to be set behind it. -/
theorem carries_acquire (caller : Caller) (handle : Int) (duration : Nat) (resources : List Int)
    (names : List String) : Carries id (serveAcquire caller handle duration resources names)
      (acquire caller handle duration resources names) := by
  unfold serveAcquire acquire
  cases checkArguments duration resources names with
  | error errno => exact fun _ => rfl
  | ok arguments =>
      obtain ⟨hints, durationMs⟩ := arguments
      have hparts : Carries id (do
          lift (acquireChecks caller handle hints)
          thenChanged (lift (acquireHolds caller handle hints durationMs))) (do
          acquireChecks caller handle hints
          acquireHolds caller handle hints durationMs) :=
        (carries_lift _).bind fun _ => (carries_lift _).thenChanged
      unfold acquireChecks acquireHolds at hparts
      unfold acquireNew
      simp only [bind_assoc, pure_bind] at hparts ⊢
      exact hparts

/-- The same for `release`. -/
theorem carries_release (caller : Caller) (handle : Int) :
    Carries id (serveRelease caller handle) (release caller handle) := by
  have hparts : release caller handle = (do
      releaseChecks caller handle
      releaseEnds handle) := by
    unfold release releaseChecks releaseEnds
    rw [bind_assoc]
    congr 1
    funext s
    cases s.find handle with
    | none => rfl
    | some found => rfl
  rw [hparts]
  exact (carries_lift _).bind fun _ => (carries_lift _).thenChanged

/-- A death is announced only when the callback is known; without one it changes nothing. -/
theorem carries_died (cookie : Nat) : Carries id (serveDied cookie) (serviceDied cookie) := by
  intro s
  have hget : (get : Serve Service) s = .ok s s := rfl
  have hgetCore : (get : Op State) s.core = .ok s.core s.core := rfl
  unfold serveDied
  rw [run_bind_ok hget]
  cases hfind : s.core.callbacks.find? (·.1 == cookie) with
  | none =>
      unfold serviceDied
      rw [run_bind_ok hgetCore, hfind]
      rfl
  | some callback => exact (carries_lift _).thenChanged s

/-- The mode is noted between the calls that change the tables. -/
theorem carries_audio (caller : Caller) (hint data : Int) :
    Carries id (serveAudio caller hint data) (audio caller hint data) := by
  refine (carries_lift _).bind fun _ => (carries_lift _).bind fun _ => ?_
  refine .noted _ (fun _ => rfl) ((carries_lift _).bind fun _ => .noted _ (fun _ => rfl) ?_)
  exact carries_syncMode.bind fun _ => carries_lift _

/-! ### A pass -/

/-- What a pass has found for its wait is not looked at. -/
abbrev unwaited : Wait → Unit := fun _ => ()

/-- The wait is returned behind the program. -/
theorem Carries.returning {q : Serve Unit} {p : Op Unit} (h : Carries id q p) (wait : Wait) :
    Carries unwaited (do
      q
      return wait) p := by
  have hwait := h.bind (l := pure) fun _ => carries_pure unwaited wait
  rw [bind_pure] at hwait
  exact hwait

theorem carries_ownerTurn (wait : Wait) (owner : (Nat × Int) × Nat) :
    Carries unwaited (ownerTurn wait owner) (expireOwner owner) := by
  refine (carries_lift now).bind fun t => carries_ite ?_ (carries_pure unwaited _)
  exact (carries_lift _).returning wait

/-- The turns over the owners, whatever the wait is so far. -/
theorem carries_ownerTurns (wait : Wait) (owners : List ((Nat × Int) × Nat)) :
    Carries unwaited (ownerTurns wait owners) (owners.forM expireOwner) := by
  induction owners generalizing wait with
  | nil => exact carries_pure unwaited wait
  | cons owner owners ih => exact (carries_ownerTurn wait owner).bind fun wait => ih wait

/-- A replay that is due. -/
theorem carries_replayTurn : Carries id replayTurn attemptReplay := by
  refine (carries_lift connect).bind fun connected => carries_get fun s => ?_
  refine (carries_lift _).bind fun restored => (carries_lift _).bind fun _ => ?_
  refine Carries.bind (f := id) ?_ fun synced => carries_lift _
  unfold syncRestored andThen
  exact carries_ite carries_syncMode (carries_pure id false)

theorem carries_recoverTurn : Carries id recoverTurn recover := by
  refine carries_get fun s => carries_ite (carries_pure id ()) ?_
  exact (carries_lift now).bind fun t => carries_ite (carries_pure id ()) carries_replayTurn

/-- The clock is read for the time of the next try. -/
theorem carries_retry (wait : Wait) (what : Option Int) :
    Carries unwaited (do
      let t ← lift now
      return wait.retry what t) readClock :=
  (carries_lift now).bind fun _ => carries_pure unwaited _

/-- The audio mode is tried again where no replay is to come. -/
theorem carries_audioTurn (wait : Wait) : Carries unwaited (audioTurn wait) retryAudio := by
  refine carries_get fun s => carries_ite (carries_pure unwaited wait) ?_
  exact carries_syncMode.bind fun synced =>
    carries_ite (carries_pure unwaited wait) (carries_retry wait none)

/-- A turn over a lock, also where it cannot be released. -/
theorem carries_lockTurn (wait : Wait) (handle : Int) :
    Carries unwaited (lockTurn wait handle) (expireLock handle) := by
  refine carries_get fun s => ?_
  cases s.core.find handle with
  | none => exact carries_pure unwaited wait
  | some e =>
      refine (carries_lift now).bind fun t => carries_ite ?_ (carries_pure unwaited _)
      exact (carries_lift _).bind fun released =>
        carries_ite (carries_pure unwaited wait) (carries_retry wait (some handle))

theorem carries_lockTurns (wait : Wait) (handles : List Int) :
    Carries unwaited (lockTurns wait handles) (handles.forM expireLock) := by
  induction handles generalizing wait with
  | nil => exact carries_pure unwaited wait
  | cons handle handles ih => exact (carries_lockTurn wait handle).bind fun wait => ih wait

/-- **The rest of a pass**, behind the section that takes the events. -/
theorem carries_pass : Carries id pass (do
    let s ← get
    s.audio.forM expireOwner
    recover
    retryAudio
    let s ← get
    s.handles.forM expireLock) := by
  refine carries_get fun s => (carries_ownerTurns .start s.core.audio).bind fun wait => ?_
  refine carries_recoverTurn.bind fun _ => (carries_audioTurn wait).bind fun wait => ?_
  refine carries_get fun s => ?_
  have hlocks := (carries_lockTurns wait s.core.handles).bind (g := id) (l := pure)
    (k := fun wait => modify fun t => { t with thread := .waiting (awaitReplay wait t.core.backend) })
    fun _ _ => rfl
  rw [bind_pure] at hlocks
  exact hlocks

/-- Both programs end in the same tables, with a result or with an error. -/
theorem Carries.core (h : Carries f q p) (s : Service) :
    (endState (q s)).core = endState (p s.core) := by
  rw [← h s]
  cases q s with
  | ok a s' => rfl
  | error errno s' => rfl

end Programs

/-! ### Runs -/

/-- The tables are those of a run of calls, or during a pass the ones with the events taken. -/
def Service.Follows (s : Service) (t : State) : Prop :=
  (s.thread ≠ .passing ∧ s.core = t) ∨
    (s.thread = .passing ∧ ∃ events, s.core = t.updateBackend events)

/-- The result of a program does not change where it ends. -/
theorem endState_bind_pure {ε S α β : Type} (p : EStateM ε S α) (f : α → β) (s : S) :
    endState ((p >>= fun a => pure (f a)) s) = endState (p s) := by
  cases hrun : p s with
  | ok a s' =>
      rw [run_bind_ok hrun]
      rfl
  | error errno s' =>
      rw [run_bind_error hrun]
      rfl

/-- **A call of a client** is one on the tables, or none. -/
theorem program_tables {event : Event} {program : Serve Unit} (h : event.program = some program)
    (s : Service) : ∃ calls, (endState (program s)).core = s.core.run calls := by
  cases event with
  | acquire caller handle duration resources names =>
      cases h
      refine ⟨[.acquire caller handle duration resources names], ?_⟩
      rw [endState_bind_pure _ fun _ => ()]
      exact ((carries_acquire _ _ _ _ _).core s).trans (endState_bind_pure _ some _).symm
  | release caller handle =>
      cases h
      exact ⟨[.release caller handle],
        ((carries_release _ _).core s).trans (endState_bind_pure _ (fun _ => none) _).symm⟩
  | watch caller =>
      cases h
      refine ⟨[.watch caller], ?_⟩
      rw [endState_bind_pure _ fun _ => ()]
      exact ((carries_lift _).core s).trans (endState_bind_pure _ (fun _ => none) _).symm
  | unwatch cookie =>
      cases h
      refine ⟨[.unwatch cookie], ?_⟩
      have hcall := endState_bind_pure (Power.unwatch cookie) (fun _ => (none : Option Int)) s.core
      exact ((carries_lift _).core s).trans hcall.symm
  | died cookie =>
      cases h
      exact ⟨[.died cookie],
        ((carries_died _).core s).trans (endState_bind_pure _ (fun _ => none) _).symm⟩
  | audio caller hint data =>
      cases h
      exact ⟨[.audio caller hint data],
        ((carries_audio _ _ _).core s).trans (endState_bind_pure _ (fun _ => none) _).symm⟩
  | notify =>
      cases h
      exact ⟨[], rfl⟩
  | backendRegistered binder => cases h
  | backendDied generation => cases h
  | property ready => cases h
  | wakeUp => cases h
  | finish => cases h

/-- The thread waits behind a pass. -/
theorem pass_waits (s : Service) : (endState (pass s)).thread ≠ .passing := by
  have hends : Ends pass s (fun _ s' => s'.thread ≠ .passing) fun _ s' => s'.thread ≠ .passing := by
    refine (pass_ends s).mono (fun _ s' h => ?_) fun _ _ h => h
    obtain ⟨wait, -, hthread, -⟩ := h
    rw [hthread]
    exact Thread.noConfusion
  exact ends_endState.mp hends

/-- **A step of the service** is a run of calls on the tables. -/
theorem Service.Follows.step {s s' : Service} {t : State} {event : Event} (h : s.Follows t)
    (hstep : s.step event = some s') : ∃ calls, s'.Follows (t.run calls) := by
  have hsame : ∀ events, Service.Follows { s with events := events } (t.run []) := fun _ => h
  -- A client's program takes the lock for itself: it needs the thread outside its pass.
  cases hclient : event.program with
  | some program =>
      rw [client_step (by rw [hclient]; rfl), hclient] at hstep
      split at hstep
      · cases hstep
      · rename_i hthread
        obtain rfl := Option.some.inj hstep
        obtain ⟨calls, hcalls⟩ := program_tables hclient s
        have hcore : s.core = t := (h.resolve_right fun hpassing => hthread hpassing.1).2
        refine ⟨calls, .inl ⟨?_, hcalls.trans (by rw [hcore])⟩⟩
        rw [(program_announces hclient s).thread]
        exact hthread
  -- The rest are the world's events and the thread's own two.
  | none =>
      cases event with
      | backendRegistered binder =>
          cases hstep
          exact ⟨[], hsame _⟩
      | backendDied generation =>
          cases hstep
          exact ⟨[], hsame _⟩
      | property ready =>
          obtain rfl := Option.some.inj hstep
          split
          · exact ⟨[], h⟩
          · exact ⟨[], hsame _⟩
      -- The pass is made on the tables as they are when the thread takes the lock.
      | wakeUp =>
          simp only [Service.step] at hstep
          split at hstep
          · cases hstep
          · rename_i hthread
            obtain rfl := Option.some.inj hstep
            have hcore : s.core = t := (h.resolve_right fun hpassing => hthread hpassing.1).2
            refine ⟨[], .inr ⟨rfl, ⟨s.events.deaths, s.events.registered, s.events.ready⟩, ?_⟩⟩
            rw [← hcore]
            rfl
      -- The thread lets the lock go: what it did since waking is one call of `expire`.
      | finish =>
          simp only [Service.step] at hstep
          split at hstep
          · rename_i hpassing
            obtain rfl := Option.some.inj hstep
            obtain ⟨-, events, hcore⟩ := h.resolve_left fun hout => hout.1 hpassing
            refine ⟨[.expire events], .inl ⟨pass_waits s, ?_⟩⟩
            refine (carries_pass.core s).trans ?_
            rw [hcore]
            exact (endState_bind_pure (expire events) (fun _ => none) t).symm
          · cases hstep
      | acquire => cases hclient
      | release => cases hclient
      | watch => cases hclient
      | unwatch => cases hclient
      | died => cases hclient
      | audio => cases hclient
      | notify => cases hclient

/-- **Whenever the thread is not in a pass, the tables are those of a run of calls.** -/
theorem run_tables {ticks : List Nat} {replies : List Reply} {events : List Event} {s : Service}
    (h : (Service.init ticks replies).run events = some s) (hthread : s.thread ≠ .passing) :
    ∃ calls, s.core = (State.start ticks replies).run calls := by
  have hrun : ∀ {s₀ s : Service} {t : State}, s₀.Follows t → s₀.run events = some s →
      ∃ calls, s.Follows (t.run calls) := by
    clear h
    induction events with
    | nil =>
        intro s₀ s t h₀ hrun
        cases hrun
        exact ⟨[], h₀⟩
    | cons event events ih =>
        intro s₀ s t h₀ hrun
        obtain ⟨s₁, hstep, hrun⟩ := Option.bind_eq_some_iff.mp hrun
        obtain ⟨calls, h₁⟩ := h₀.step hstep
        obtain ⟨later, h₂⟩ := ih h₁ hrun
        refine ⟨calls ++ later, ?_⟩
        rw [State.run, List.foldl_append]
        exact h₂
  obtain ⟨calls, hfollows⟩ := hrun (.inl ⟨Thread.noConfusion, rfl⟩) h
  exact ⟨calls, (hfollows.resolve_right fun hpassing => hthread hpassing.1).2⟩

end Mindone.Power
