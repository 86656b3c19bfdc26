import Mindone.Power.LocksExpiry

/-!
# Mindone.Power.LocksRuns

Runs of the service: calls, deaths and passes of the expiry thread in any order, with any clock and
any outcomes of the backend. **In every run the references are counted right, and a lock is only
changed for its owner**; while the backend does not fail, the boosts follow the locks.
-/

namespace Mindone.Power

open Mindone.Lib

/-- What comes from outside. -/
inductive Call
  | acquire (caller : Caller) (handle : Int) (duration : Nat) (resources : List Int)
      (names : List String)
  | release (caller : Caller) (handle : Int)
  | watch (caller : Caller)
  | unwatch (cookie : Nat)
  | died (cookie : Nat)
  | audio (caller : Caller) (hint data : Int)
  | expire (events : BackendEvents)

/-- The call; `acquire` returns a handle. -/
def Call.operation : Call → Op (Option Int)
  | .acquire caller handle duration resources names =>
      some <$> Power.acquire caller handle duration resources names
  | .release caller handle => do Power.release caller handle; pure none
  | .watch caller => do let _ ← Power.watch caller; pure none
  | .unwatch cookie => do Power.unwatch cookie; pure none
  | .died cookie => do serviceDied cookie; pure none
  | .audio caller hint data => do Power.audio caller hint data; pure none
  | .expire events => do Power.expire events; pure none

namespace State

/-- The service at its start, with what the clock and the backend are going to do. -/
def start (ticks : List Nat) (replies : List Reply) : State where
  locks := []
  references := ∅
  next := 0
  callbacks := []
  cookie := 0
  audio := []
  audioDirty := false
  backend := ⟨0, false, none, false, false, false, true, some 0, 1⟩
  time := 0
  ticks := ticks
  replies := replies
  failed := false
  boosts := fun _ => none

def step (s : State) (call : Call) : State := endState (call.operation s)

def run (s : State) (calls : List Call) : State := calls.foldl step s

/-- The handles that have been returned. -/
def returned (s : State) : List Call → List Int
  | [] => []
  | call :: calls =>
      match call.operation s with
      | .ok (some handle) s' => handle :: s'.returned calls
      | .ok none s' => s'.returned calls
      | .error _ s' => s'.returned calls

end State

/-- For whom a call may change a lock. -/
def Call.MayChange (call : Call) (s s' : State) (e : Entry) : Prop :=
  match call with
  | .acquire caller handle _ _ _ => e.handle = handle ∧ e.owner = caller
  | .release caller handle => e.handle = handle ∧ e.OwnedBy caller
  | .died cookie => (cookie, e.owner) ∈ s.callbacks
  | .expire _ => e.untilNs ≤ s'.time
  | _ => False

/-- What every call keeps. -/
structure Served (call : Call) (s s' : State) : Prop where
  good : s'.Good
  next : s.next ≤ s'.next
  callbacks : ∀ c ∈ s'.callbacks, c ∈ s.callbacks ∨ call = .watch c.2
  locks : ∀ e ∈ s.locks, e ∈ s'.locks ∨ call.MayChange s s' e

section Steps

variable {s s' : State} {call : Call} {E : Errno → State → Prop}

theorem Steady.served (h : Steady s s') (hgood : s'.Good)
    (hlocks : ∀ e ∈ s.locks, e ∈ s'.locks ∨ call.MayChange s s' e) : Served call s s' := by
  refine ⟨hgood, h.next, fun c hc => .inl ?_, hlocks⟩
  rw [← h.callbacks]
  exact hc

theorem Kept.served (h : Kept s s') : Served call s s' := by
  refine h.toSteady.served h.good fun e he => .inl ?_
  rw [h.locks]
  exact he

theorem Acquired.served {caller : Caller} {handle k : Int} {duration durationMs : Nat}
    {resources : List Int} {names hints : List String} (hs : s.Good)
    (h : Acquired s caller handle hints durationMs k s') :
    Served (.acquire caller handle duration resources names) s s' := by
  refine h.kin.toSteady.served h.good fun e he => ?_
  by_cases hk : e.handle = k
  · rcases Int.lt_or_le 0 handle with hpos | hle
    · obtain ⟨rfl, old, hold, hold', howner⟩ := h.update hpos
      rw [eq_of_key hs.keys he hold (hk.trans hold'.symm)]
      exact .inr ⟨hold', howner⟩
    · exact absurd (hk ▸ (hs.range e he).2) (Int.not_le.mpr (h.new hle))
  · exact .inl ((h.others e hk).mpr he)

theorem HalfDone.served {caller : Caller} {handle : Int} {duration : Nat} {resources : List Int}
    {names : List String} (hs : s.Good)
    (h : HalfDone s caller handle duration resources names s') :
    Served (.acquire caller handle duration resources names) s s' := by
  obtain ⟨old, hold, hold', howner, hbroken⟩ := h.broken
  refine hbroken.kin.toSteady.served hbroken.good fun e he => ?_
  by_cases hk : e.handle = old.handle
  · rw [eq_of_key hs.keys he hold hk]
    exact .inr ⟨hold', howner⟩
  · exact .inl (hbroken.kept e he hk)

/-- **One call.** The handle that it returns is known from then on. -/
theorem operation_ends (hs : s.Good) (call : Call) :
    Ends call.operation s
      (fun handle s' => Served call s s' ∧ ∀ k, handle = some k → k ≤ s'.next)
      fun _ s' => Served call s s' := by
  unfold Call.operation
  split
  -- a new lock, or an update
  · rename_i caller handle duration resources names
    rw [ends_map]
    refine (acquire_ends hs caller handle duration resources names).mono (fun k s' h => ?_)
      fun errno s' h => ?_
    · obtain ⟨hints, durationMs, -, hacquired⟩ := h
      refine ⟨hacquired.served hs, fun k' hk => ?_⟩
      obtain ⟨e, he, hhandle, -⟩ := hacquired.own
      obtain rfl := Option.some_inj.mp hk
      rw [← hhandle]
      exact (hacquired.good.range e he).2
    · rcases h with h | ⟨-, h⟩
      · exact h.kin.toSteady.served h.good fun e he => .inl (h.kept e he)
      · exact h.served hs
  · rename_i caller handle
    rw [ends_bind]
    refine (release_ends hs caller handle).mono (fun _ s' h => ?_)
      fun _ s' h => h.steady.served h.good h.locks
    rw [ends_pure]
    exact ⟨h.steady.served h.good h.locks, nofun⟩
  · rename_i caller
    unfold watch refuse
    rw [ends_bind, ends_bind, ends_get, ends_bind]
    split
    · rw [ends_throw]
      exact (Kept.refl hs).served
    · rw [ends_pure, ends_bind, ends_set, ends_pure, ends_pure]
      refine ⟨⟨hs.same ⟨hs.keys, hs.range, hs.next, hs.hints, hs.references, hs.bound, hs.cut⟩ rfl
        rfl (Nat.le_refl _) id rfl, Int.le_refl _, fun c hc => ?_, fun e he => .inl he⟩, nofun⟩
      rcases List.mem_append.mp hc with hc | hc
      · exact .inl hc
      · rw [List.mem_singleton.mp hc]
        exact .inr rfl
  -- a client goes: only its callbacks go with it
  · rename_i cookie
    unfold unwatch
    rw [ends_bind, ends_modify, ends_pure]
    exact ⟨⟨hs.same ⟨hs.keys, hs.range, hs.next, hs.hints, hs.references, hs.bound, hs.cut⟩ rfl
      rfl (Nat.le_refl _) id rfl, Int.le_refl _, fun c hc => .inl (List.mem_of_mem_filter hc),
      fun e he => .inl he⟩, nofun⟩
  · rename_i cookie
    rw [ends_bind]
    refine (serviceDied_ends hs cookie).mono (fun _ s' h => ?_) fun _ _ h => h
    rw [ends_pure]
    refine ⟨⟨h.good, h.next, fun c hc => .inl ?_, h.locks⟩, nofun⟩
    rw [h.callbacks] at hc
    exact List.mem_of_mem_filter hc
  · rename_i caller hint data
    rw [ends_bind]
    refine (audio_ends hs caller hint data).mono (fun _ s' h => ?_) fun _ s' h => h.served
    rw [ends_pure]
    exact ⟨h.served, nofun⟩
  -- a pass of the expiry thread
  · rename_i events
    rw [ends_bind]
    refine (expire_ends hs events).mono (fun _ s' h => ?_) fun _ _ h => h
    rw [ends_pure]
    exact ⟨h.framed.steady.served h.framed.good h.framed.locks, nofun⟩

theorem step_served (hs : s.Good) (call : Call) : Served call s (s.step call) :=
  ends_endState.mp ((operation_ends hs call).mono (fun _ _ h => h.1) fun _ _ h => h)

theorem step_passed (hs : s.Good) (events : BackendEvents) :
    Passed s (s.step (.expire events)) := by
  refine ends_endState.mp ?_
  unfold Call.operation
  rw [ends_bind]
  exact (expire_ends hs events).mono (fun _ _ h => (ends_pure _).mpr h) fun _ _ h => h

end Steps

/-! ### Runs -/

theorem good_start (ticks : List Nat) (replies : List Reply) : (State.start ticks replies).Good where
  keys := List.nodup_nil
  range := fun _ he => absurd he List.not_mem_nil
  next := Int.le_refl _
  hints := fun _ he => absurd he List.not_mem_nil
  references := fun _ => rfl
  bound := fun _ he => absurd he List.not_mem_nil
  cut := fun _ he => absurd he List.not_mem_nil
  known := fun _ hext => absurd hext nofun
  unsent := fun _ _ => rfl

theorem run_good {s : State} (hs : s.Good) (calls : List Call) : (s.run calls).Good := by
  induction calls generalizing s with
  | nil => exact hs
  | cons call calls ih => exact ih (step_served hs call).good

/-- A callback has been registered by its owner. -/
theorem run_callbacks {s : State} (hs : s.Good) (calls : List Call) {c : Nat × Caller}
    (h : c ∈ (s.run calls).callbacks) : c ∈ s.callbacks ∨ .watch c.2 ∈ calls := by
  induction calls generalizing s with
  | nil => exact .inl h
  | cons call calls ih =>
      rcases ih (step_served hs call).good h with h | h
      · refine ((step_served hs call).callbacks c h).imp id fun heq => ?_
        rw [heq]
        exact List.mem_cons_self
      · exact .inr (.tail _ h)

theorem run_next {s : State} (hs : s.Good) (calls : List Call) : s.next ≤ (s.run calls).next := by
  induction calls generalizing s with
  | nil => exact Int.le_refl _
  | cons call calls ih => exact (step_served hs call).next.trans (ih (step_served hs call).good)

/-- The handles that were returned are not above the last one. -/
theorem returned_le {s : State} (hs : s.Good) (calls : List Call) :
    ∀ k ∈ s.returned calls, k ≤ (s.run calls).next := by
  induction calls generalizing s with
  | nil => exact fun _ hk => absurd hk List.not_mem_nil
  | cons call calls ih =>
      have hserved := step_served hs call
      have hends := operation_ends hs call
      intro k hk
      show k ≤ ((s.step call).run calls).next
      unfold State.step at hserved ⊢
      unfold State.returned at hk
      split at hk
      · rename_i handle s' hrun
        rw [hrun] at hserved ⊢
        rcases List.mem_cons.mp hk with rfl | hk
        · exact ((hends.of_ok hrun).2 k rfl).trans (run_next hserved.good calls)
        · exact ih hserved.good k hk
      · rename_i s' hrun
        rw [hrun] at hserved ⊢
        exact ih hserved.good k hk
      · rename_i errno s' hrun
        rw [hrun] at hserved ⊢
        exact ih hserved.good k hk

/-! ### References and boosts -/

/-- **The references count the locks, and the boosts follow them.** Where a callback has died, its
owner's locks have ended already but their hints are only given back in the next pass. -/
theorem references_and_boosts (ticks : List Nat) (replies : List Reply) (calls : List Call) :
    let s := (State.start ticks replies).run calls
    (∀ hint, s.references.lookup hint =
      if holders s.locks hint = 0 then none else some (holders s.locks hint)) ∧
    (s.failed = false → s.backend.ext = true → ∀ hint,
      (∀ e ∈ s.locks, e.cut = true → hint ∉ e.hints) → s.Boosted hint) ∧
    (∀ events, (s.step (.expire events)).failed = false →
      (s.step (.expire events)).backend.ext = true →
      ∀ hint, (s.step (.expire events)).Boosted hint) := by
  have hs := run_good (good_start ticks replies) calls
  refine ⟨hs.references, fun hok hext hint hwhole => ?_, fun events hok hext hint => ?_⟩
  · rcases hs.known hok hext hint with h | ⟨e, he, hcut, hmem⟩
    · exact h
    · exact absurd hmem (hwhole e he hcut)
  · have hpass := step_passed hs events
    rcases hpass.framed.good.known hok hext hint with h | ⟨e, he, hcut, -⟩
    · exact h
    · exact absurd ((hpass.whole hok hext e he).symm.trans hcut) nofun

/-- Two locks for a hint; the one that lasts longer ends when its owner's callback dies. -/
def sharedHint : List Call :=
  [.expire ⟨[], some 1, true⟩, .watch ⟨1000, 10⟩, .acquire ⟨1000, 10⟩ 0 300000 [] ["H"],
    .acquire ⟨2000, 20⟩ 0 1000 [] ["H"], .died 1]

/-- While both live, the hint is boosted for them, and behind the pass after the death for the one
that is left. -/
theorem references_and_boosts_shared :
    ((State.start [] []).run (sharedHint.take 4)).references.lookup "H" = some 2 ∧
      ((State.start [] []).run (sharedHint.take 4)).Boosted "H" ∧
      (((State.start [] []).run sharedHint).step (.expire ⟨[], none, true⟩)).Boosted "H" := by
  obtain ⟨hreferences, hboosted, -⟩ := references_and_boosts [] [] (sharedHint.take 4)
  refine ⟨(hreferences "H").trans (by decide +kernel),
    hboosted (by decide +kernel) (by decide +kernel) "H" (by decide +kernel), ?_⟩
  exact (references_and_boosts [] [] sharedHint).2.2 ⟨[], none, true⟩ (by decide +kernel)
    (by decide +kernel) "H"

/-- Until the next pass the boost lasts as long as the lock that has ended. -/
theorem boost_outlasts_death : ¬ ∀ (ticks : List Nat) (replies : List Reply) (calls : List Call),
    let s := (State.start ticks replies).run calls
    s.failed = false → s.backend.ext = true → ∀ hint, s.Boosted hint := by
  intro h
  have hboosted := h [] [] sharedHint (by decide +kernel) (by decide +kernel) "H"
  have htime : ((State.start [] []).run sharedHint).time = 0 := by decide +kernel
  have hlocks : ((State.start [] []).run sharedHint).locks =
      [⟨1, ⟨1000, 10⟩, 0, ["H"], true⟩, ⟨2, ⟨2000, 20⟩, 1000000000, ["H"], false⟩] := by
    decide +kernel
  have hsent : ((State.start [] []).run sharedHint).boosts "H" = some (.lasting 0 300000) := by
    decide +kernel
  obtain ⟨boost, hboost, huntil⟩ := hboosted.latest 1000000000 (by rw [htime]; decide)
    ⟨⟨2, ⟨2000, 20⟩, 1000000000, ["H"], false⟩, by rw [hlocks]; exact .tail _ (.head _),
      List.mem_singleton_self _, rfl⟩
    (by
      rintro other ⟨e, he, -, rfl⟩
      rw [hlocks] at he
      rcases List.mem_cons.mp he with rfl | he
      · exact Nat.zero_le _
      · rw [List.mem_singleton.mp he])
  rw [hsent] at hboost
  obtain rfl := Option.some_inj.mp hboost
  exact absurd huntil.2 (by decide)

/-! ### Atomicity and ownership -/

/-- The locks that have not expired at the end are the same. -/
def State.SameLive (s s' : State) : Prop :=
  ∀ e : Entry, s'.time < e.untilNs → (e ∈ s'.locks ↔ e ∈ s.locks)

/-- They are the same but for one, which has ended. -/
def State.SameLiveBut (s : State) (handle : Int) (s' : State) : Prop :=
  ∀ e : Entry, s'.time < e.untilNs → (e ∈ s'.locks ↔ e ∈ s.locks ∧ e.handle ≠ handle)

theorem Spared.sameLive {s s' : State} (h : Spared s s') : s.SameLive s' := by
  intro e hlive
  refine ⟨fun he => ?_, h.kept e⟩
  exact (h.new e he).resolve_right fun hended => absurd hended.2 (Nat.not_le.mpr hlive)

theorem Broken.sameLiveBut {s s' : State} {old : Entry} (h : Broken s old s') :
    s.SameLiveBut old.handle s' := by
  intro e hlive
  refine ⟨fun he => ?_, fun he => h.kept e he.1 he.2⟩
  exact (h.new e he).resolve_right fun hended => absurd hended (Nat.not_le.mpr hlive)

/-- **Power locks are atomic and owned.** An `acquire` that fails leaves the locks that live as they
were, but for an update whose new lock had all its hints when the backend failed for the old one:
that lock has ended. An update keeps its handle, a new handle is new, and only its owner's calls,
its expiry or the death of its owner's callback change a lock. -/
theorem locks_atomic_and_owned (ticks : List Nat) (replies : List Reply) (calls : List Call) :
    let s := (State.start ticks replies).run calls
    (∀ caller handle duration resources names errno s',
      acquire caller handle duration resources names s = .error errno s' →
      s.SameLive s' ∨ (errno = .eio ∧ s'.failed = true ∧ s.SameLiveBut handle s' ∧
        HalfDone s caller handle duration resources names s')) ∧
    (∀ caller handle duration resources names k s',
      acquire caller handle duration resources names s = .ok k s' →
      ∃ hints durationMs,
        checkArguments duration resources names = .ok (hints, durationMs) ∧
        (∃ e ∈ s'.locks, e.handle = k ∧ e.owner = caller ∧
          s.time + durationMs * nanosPerMs ≤ e.untilNs ∧
          e.untilNs ≤ s'.time + durationMs * nanosPerMs ∧ ∀ hint, hint ∈ e.hints ↔ hint ∈ hints) ∧
        (s'.locks.map Entry.handle).Nodup ∧ s.OthersSame k s' ∧
        (0 < handle → k = handle ∧ ∃ old ∈ s.locks, old.handle = handle ∧ old.owner = caller) ∧
        (handle ≤ 0 → k ∉ (State.start ticks replies).returned calls)) ∧
    (∀ call : Call, ∀ e ∈ s.locks, e ∈ (s.step call).locks ∨
      (call.MayChange s (s.step call) e ∧
        (∀ cookie, call = .died cookie → .watch e.owner ∈ calls))) := by
  have hstart := good_start ticks replies
  have hs := run_good hstart calls
  refine ⟨?_, ?_, ?_⟩
  · intro caller handle duration resources names errno s' hrun
    rcases (acquire_ends hs caller handle duration resources names).of_error hrun with h | ⟨rfl, h⟩
    · exact .inl h.sameLive
    · obtain ⟨old, -, hold, -, hbroken⟩ := h.broken
      exact .inr ⟨rfl, hbroken.failed, hold ▸ hbroken.sameLiveBut, h⟩
  · intro caller handle duration resources names k s' hrun
    obtain ⟨hints, durationMs, hargs, h⟩ :=
      (acquire_ends hs caller handle duration resources names).of_ok hrun
    refine ⟨hints, durationMs, hargs, h.own, h.good.keys, h.others, h.update, fun hle hmem => ?_⟩
    exact absurd (returned_le hstart calls k hmem) (Int.not_le.mpr (h.new hle))
  · intro call e he
    refine ((step_served hs call).locks e he).imp id fun hmay => ⟨hmay, ?_⟩
    rintro cookie rfl
    exact (run_callbacks hstart calls hmay).resolve_left List.not_mem_nil

/-- A lock for a hint. -/
def firstLock : List Call :=
  [.expire ⟨[], some 1, true⟩, .acquire ⟨1000, 10⟩ 0 300000 [] ["A"]]

/-- What a call returns. -/
def returns (op : Op Int) (s : State) : Except Errno Int :=
  match op s with
  | .ok k _ => .ok k
  | .error errno _ => .error errno

theorem of_returns_ok {op : Op Int} {s : State} {k : Int} (h : returns op s = .ok k) :
    ∃ s', op s = .ok k s' := by
  unfold returns at h
  split at h
  · rename_i s' hop
    cases h
    exact ⟨s', hop⟩
  · cases h

theorem of_returns_error {op : Op Int} {s : State} {errno : Errno}
    (h : returns op s = .error errno) : ∃ s', op s = .error errno s' := by
  unfold returns at h
  split at h
  · cases h
  · rename_i s' hop
    cases h
    exact ⟨s', hop⟩

/-- The owner of the lock updates it, another client may not, and what another client does leaves it
as it is. -/
theorem locks_atomic_and_owned_update :
    let s := (State.start [] []).run firstLock
    (∃ s', acquire ⟨1000, 10⟩ 1 1000 [] ["B"] s = .ok 1 s' ∧
      ∃ e ∈ s'.locks, e.handle = 1 ∧ e.owner = ⟨1000, 10⟩ ∧ "B" ∈ e.hints) ∧
      (∃ s', acquire ⟨2000, 20⟩ 1 1000 [] ["B"] s = .error .eperm s' ∧ s.SameLive s') ∧
      ⟨1, ⟨1000, 10⟩, 300000000000, ["A"], false⟩ ∈ (s.step (.release ⟨2000, 20⟩ 1)).locks := by
  intro s
  obtain ⟨herror, hok, hothers⟩ := locks_atomic_and_owned [] [] firstLock
  refine ⟨?_, ?_, ?_⟩
  · have hreturns : returns (acquire ⟨1000, 10⟩ 1 1000 [] ["B"]) s = .ok 1 := by decide +kernel
    obtain ⟨s', hrun⟩ := of_returns_ok hreturns
    obtain ⟨hints, durationMs, hargs, ⟨e, he, hhandle, howner, -, -, hhints⟩, -⟩ :=
      hok _ _ _ _ _ _ _ hrun
    have hchecked : checkArguments 1000 [] ["B"] = .ok (["B"], 1000) := by decide +kernel
    cases hchecked.symm.trans hargs
    exact ⟨s', hrun, e, he, hhandle, howner, (hhints "B").mpr (List.mem_singleton_self _)⟩
  · have hreturns : returns (acquire ⟨2000, 20⟩ 1 1000 [] ["B"]) s = .error .eperm := by
      decide +kernel
    obtain ⟨s', hrun⟩ := of_returns_error hreturns
    refine ⟨s', hrun, (herror _ _ _ _ _ _ _ hrun).resolve_right fun h => ?_⟩
    cases h.1
  · refine (hothers (.release ⟨2000, 20⟩ 1) _ (by decide +kernel)).resolve_right ?_
    rintro ⟨⟨-, huid, -⟩, -⟩
    exact absurd huid (by decide)

/-- The backend fails when an update takes back the boost of the old hint. -/
def failsForOld : List Reply := [.ok, .ok, .ok, .ok, .ok, .ok, .ok, .failed]

/-- The update has failed, and the lock that the client had has ended. -/
theorem update_ends_old_lock : ¬ ∀ (ticks : List Nat) (replies : List Reply) (calls : List Call),
    let s := (State.start ticks replies).run calls
    ∀ caller handle duration resources names errno s',
      acquire caller handle duration resources names s = .error errno s' → s.SameLive s' := by
  intro h
  have hsame := h [] failsForOld firstLock ⟨1000, 10⟩ 1 1000 [] ["B"]
  have hbefore : ((State.start [] failsForOld).run firstLock).locks =
      [⟨1, ⟨1000, 10⟩, 300000000000, ["A"], false⟩] := by decide +kernel
  have hafter : (match acquire ⟨1000, 10⟩ 1 1000 [] ["B"]
      ((State.start [] failsForOld).run firstLock) with
    | .ok _ _ => false
    | .error _ s' =>
        decide (s'.locks = [⟨1, ⟨1000, 10⟩, 0, ["A"], false⟩]) && decide (s'.time = 0)) = true := by
    decide +kernel
  split at hafter
  · cases hafter
  · rename_i errno s' hrun
    obtain ⟨hlocks, htime⟩ := Bool.and_eq_true_iff.mp hafter
    have hlive : s'.time < 300000000000 := by
      rw [of_decide_eq_true htime]
      decide
    have hmem := (hsame errno s' hrun ⟨1, ⟨1000, 10⟩, 300000000000, ["A"], false⟩ hlive).mpr
      (by rw [hbefore]; exact List.mem_singleton_self _)
    rw [of_decide_eq_true hlocks] at hmem
    exact absurd hmem (by decide)

end Mindone.Power
