import Mindone.Power.ExpiryThread

/-!
# Mindone.Power.ExpiryThreadKeeps

**What the programs of the service leave alone**, as far as the wait of the expiry thread looks at it:
the expiries of the locks, the owners of the audio mode and the connection. An invariant that does
not look at the clock, the replies, the boosts and the hints is `Clear`, and most programs keep it.
-/

namespace Mindone.Power

open Lib

/-! ### Clear invariants -/

/-- The expiry of a lock. -/
def State.deadline (s : State) (handle : Int) : Option Nat := (s.find handle).map Entry.untilNs

/-- An invariant that does not look at the clock, the replies, the boosts and the hints, and that
stays when a lock goes. -/
structure Clear (I : State → Prop) : Prop where
  clock : ∀ s time ticks, I s → s.time ≤ time → I { s with time := time, ticks := ticks }
  replies : ∀ s replies failed, I s → I { s with replies := replies, failed := failed }
  boosts : ∀ s boosts, I s → I { s with boosts := boosts }
  hints : ∀ s handle f references, (∀ e : Entry, (f e).handle = e.handle ∧ (f e).untilNs = e.untilNs) →
    I s → I { s.modifyLock handle f with references := references }
  erase : ∀ (s : State) handle, I s → I { s with locks := s.locks.filter (·.handle ≠ handle) }

namespace Clear

variable {I J : State → Prop} (h : Clear I)
include h

theorem now : Keeps I J Power.now := by
  intro s hs
  unfold Power.now
  rw [ends_bind, ends_get, ends_bind, ends_set, ends_pure]
  exact h.clock s _ _ hs (Nat.le_add_right _ _)

theorem backendCall : Keeps I J Power.backendCall := by
  intro s hs
  unfold Power.backendCall
  rw [ends_bind, ends_get, ends_bind, ends_set, ends_pure]
  exact h.replies s _ _ hs

theorem connectCall : Keeps I J Power.connectCall := by
  intro s hs
  unfold Power.connectCall
  rw [ends_bind, ends_get, ends_bind, ends_set, ends_pure]
  exact h.replies s _ s.failed hs

omit h in
theorem refuse (c : Prop) [Decidable c] (errno : Errno) : Keeps I I (Power.refuse c errno) :=
  keeps_ite (fun _ => keeps_throw (fun _ => id) errno) fun _ => keeps_pure _

omit h in
theorem andThen {ok : Bool} {p : Op Bool} (hp : Keeps I J p) : Keeps I J (Power.andThen ok p) :=
  keeps_ite (fun _ => hp) fun _ => keeps_pure _

theorem setBoost (hint : String) (boost : Boost) : Keeps I J (Power.setBoost hint boost) :=
  h.backendCall.bind fun _ => keeps_ite (fun _ => keeps_pure _) fun _ =>
    (keeps_modify fun s hs => h.boosts s _ hs).bind fun _ => keeps_pure _

theorem apply (hint : String) (untilNs : Nat) : Keeps I J (Power.apply hint untilNs) :=
  keeps_get.bind fun _ => h.now.bind fun _ => h.setBoost _ _

theorem releaseHint (handle : Int) (hint : String) : Keeps I J (Power.releaseHint handle hint) := by
  have hdrop : ∀ (s : State) references, I s →
      I ({ s with references := references }.dropHint handle hint) := fun s references hs =>
    h.hints s handle (fun e => { e with hints := e.hints.filter (· ≠ hint) }) references (fun _ => ⟨rfl, rfl⟩) hs
  refine keeps_get.bind fun s => keeps_ite (fun _ => ?_) fun _ => ?_
  · refine keeps_ite (fun _ => keeps_pure _) fun _ => (h.setBoost _ _).bind fun _ => ?_
    exact keeps_ite (fun _ => keeps_modify fun s hs => hdrop s _ hs) fun _ => keeps_pure _
  · refine keeps_ite (fun _ => keeps_pure _) fun _ => h.now.bind fun _ => (h.apply _ _).bind fun _ => ?_
    exact keeps_ite (fun _ => keeps_modify fun s hs => hdrop s _ hs) fun _ => keeps_pure _

/-- A release keeps the invariant, and a lock that was released is gone. -/
theorem releaseLocked_ends {s : State} (hs : I s) (handle : Int) : Ends (releaseLocked handle) s
    (fun ok s' => I s' ∧ (ok = true → s'.deadline handle = none)) fun _ s' => J s' := by
  unfold releaseLocked
  rw [ends_bind, ends_get, ends_bind]
  refine (keeps_forM (h.releaseHint handle) _ s hs).mono (fun _ t ht => ?_) fun _ _ ht => ht
  rw [ends_bind, ends_get]
  split
  · rw [ends_pure]
    exact ⟨ht, nofun⟩
  · rw [ends_bind, ends_set, ends_pure]
    refine ⟨h.erase t handle ht, fun _ => ?_⟩
    simp [State.deadline, State.find]

theorem releaseLocked (handle : Int) : Keeps I J (Power.releaseLocked handle) := fun _ hs =>
  (h.releaseLocked_ends hs handle).mono (fun _ _ ht => ht.1) fun _ _ ht => ht

theorem checkOld (caller : Caller) (handle : Int) : Keeps I I (Power.checkOld caller handle) := by
  refine keeps_get.bind fun s => keeps_ite (fun _ => keeps_pure _) fun _ => ?_
  cases s.find handle with
  | none => exact keeps_throw (fun _ => id) _
  | some old => exact (Clear.refuse _ _).bind fun _ => h.now.bind fun _ => Clear.refuse _ _

theorem checkSupported (hints : List String) : Keeps I I (Power.checkSupported hints) := by
  induction hints with
  | nil => exact keeps_pure _
  | cons hint hints ih =>
      refine h.backendCall.bind fun reply => ?_
      cases reply with
      | ok => exact ih
      | no => exact keeps_throw (fun _ => id) _
      | failed => exact keeps_throw (fun _ => id) _

theorem acquireChecks (caller : Caller) (handle : Int) (hints : List String) :
    Keeps I I (Power.acquireChecks caller handle hints) :=
  keeps_get.bind fun _ => (Clear.refuse _ _).bind fun _ => (h.checkOld _ _).bind fun _ =>
    (h.checkSupported _).bind fun _ => keeps_get.bind fun _ => Clear.refuse _ _

omit h in
theorem releaseChecks (caller : Caller) (handle : Int) : Keeps I I (Power.releaseChecks caller handle) := by
  refine keeps_get.bind fun s => ?_
  cases s.find handle with
  | none => exact keeps_throw (fun _ => id) _
  | some found => exact Clear.refuse _ _

theorem anyActive (hint : String) (locks : List Entry) : Keeps I J (Power.anyActive hint locks) := by
  induction locks with
  | nil => exact keeps_pure _
  | cons e locks ih => exact h.now.bind fun _ => ih.bind fun _ => keeps_pure _

theorem replayHint (hint : String) : Keeps I J (Power.replayHint hint) := by
  refine keeps_get.bind fun s => (h.anyActive _ _).bind fun active => keeps_ite (fun _ => keeps_pure _) fun _ => ?_
  refine h.backendCall.bind fun reply => keeps_ite (fun _ => h.now.bind fun _ => h.apply _ _) fun _ => ?_
  exact (keeps_modify fun s hs => h.replies s s.replies true hs).bind fun _ => keeps_pure _

theorem replayHints (hints : List String) : Keeps I J (Power.replayHints hints) := by
  induction hints with
  | nil => exact keeps_pure _
  | cons hint hints ih => exact (h.replayHint _).bind fun _ => ih.bind fun _ => keeps_pure _

end Clear

/-! ### What stays -/

section Relations

variable {s t u : State}

/-- A change of the hints leaves the deadlines. -/
theorem deadline_modifyLock {handle : Int} {f : Entry → Entry} {references}
    (hf : ∀ e : Entry, (f e).handle = e.handle ∧ (f e).untilNs = e.untilNs) {k : Int} {time : Nat}
    (h : State.deadline { s.modifyLock handle f with references := references } k = some time) :
    s.deadline k = some time := by
  simp only [State.deadline, Option.map_eq_some_iff] at h ⊢
  obtain ⟨e, he, rfl⟩ := h
  obtain ⟨a, ha, rfl | rfl⟩ := find?_modifyKey (fun a => (hf a).1) he
  · exact ⟨e, ha, rfl⟩
  · exact ⟨a, ha, ((hf a).2).symm⟩

/-- A lock that is left has the deadline it had. -/
theorem deadline_filter {handle k : Int} {time : Nat}
    (h : State.deadline { s with locks := s.locks.filter (·.handle ≠ handle) } k = some time) :
    s.deadline k = some time := by
  simp only [State.deadline, State.find, Option.map_eq_some_iff, List.find?_filter] at h ⊢
  obtain ⟨e, he, rfl⟩ := h
  have hk : ¬ e.handle = handle ∧ e.handle = k := by simpa using List.find?_some he
  have hne : ¬ k = handle := by rw [← hk.2]; exact hk.1
  refine ⟨e, ?_, rfl⟩
  rw [← he]
  congr 1
  funext a
  by_cases ha : a.handle = k
  · simp [ha, hne]
  · simp [ha]

/-- The owners of the audio mode and the connection are the same. -/
structure Aside (s t : State) : Prop where
  audio : t.audio = s.audio
  audioDirty : t.audioDirty = s.audioDirty
  backend : t.backend = s.backend
  time : s.time ≤ t.time

/-- So are the expiries, but for locks that have gone. -/
structure Idle (s t : State) : Prop extends Aside s t where
  deadline : ∀ k time, t.deadline k = some time → s.deadline k = some time

/-- A replay that is to come has its time. -/
def Backend.Timed (b : Backend) : Prop := b.replay = true → b.replayAt ≠ none

/-- The owners, the expiries and whether the backend is ready. -/
structure Recovered (s t : State) : Prop where
  audio : t.audio = s.audio
  audioDirty : t.audioDirty = s.audioDirty
  ready : t.backend.ready = s.backend.ready
  timed : s.backend.Timed → t.backend.Timed
  time : s.time ≤ t.time
  deadline : ∀ k time, t.deadline k = some time → s.deadline k = some time

theorem Aside.refl (s : State) : Aside s s := ⟨rfl, rfl, rfl, Nat.le_refl _⟩

theorem Idle.refl (s : State) : Idle s s := ⟨Aside.refl s, fun _ _ => id⟩

theorem Recovered.refl (s : State) : Recovered s s := ⟨rfl, rfl, rfl, id, Nat.le_refl _, fun _ _ => id⟩

theorem Aside.trans (h : Aside s t) (h' : Aside t u) : Aside s u :=
  ⟨h'.audio.trans h.audio, h'.audioDirty.trans h.audioDirty, h'.backend.trans h.backend, h.time.trans h'.time⟩

theorem Idle.trans (h : Idle s t) (h' : Idle t u) : Idle s u :=
  ⟨h.toAside.trans h'.toAside, fun k time hk => h.deadline k time (h'.deadline k time hk)⟩

theorem Recovered.trans (h : Recovered s t) (h' : Recovered t u) : Recovered s u :=
  ⟨h'.audio.trans h.audio, h'.audioDirty.trans h.audioDirty, h'.ready.trans h.ready, fun ht => h'.timed (h.timed ht), h.time.trans h'.time,
    fun k time hk => h.deadline k time (h'.deadline k time hk)⟩

theorem Idle.recovered (h : Idle s t) : Recovered s t :=
  ⟨h.audio, h.audioDirty, by rw [h.backend], by rw [h.backend]; exact id, h.time, h.deadline⟩

theorem idle_clear (s : State) : Clear (Idle s) where
  clock _ _ _ h hle := h.trans ⟨⟨rfl, rfl, rfl, hle⟩, fun _ _ => id⟩
  replies _ _ _ h := h.trans ⟨⟨rfl, rfl, rfl, Nat.le_refl _⟩, fun _ _ => id⟩
  boosts _ _ h := h.trans ⟨⟨rfl, rfl, rfl, Nat.le_refl _⟩, fun _ _ => id⟩
  hints _ _ _ _ hf h := h.trans ⟨⟨rfl, rfl, rfl, Nat.le_refl _⟩, fun _ _ => deadline_modifyLock hf⟩
  erase _ _ h := h.trans ⟨⟨rfl, rfl, rfl, Nat.le_refl _⟩, fun _ _ => deadline_filter⟩

theorem aside_clear (s : State) : Clear (Aside s) where
  clock _ _ _ h hle := h.trans ⟨rfl, rfl, rfl, hle⟩
  replies _ _ _ h := h.trans ⟨rfl, rfl, rfl, Nat.le_refl _⟩
  boosts _ _ h := h.trans ⟨rfl, rfl, rfl, Nat.le_refl _⟩
  hints _ _ _ _ _ h := h.trans ⟨rfl, rfl, rfl, Nat.le_refl _⟩
  erase _ _ h := h.trans ⟨rfl, rfl, rfl, Nat.le_refl _⟩

theorem recovered_clear (s : State) : Clear (Recovered s) where
  clock _ _ _ h hle := h.trans ⟨rfl, rfl, rfl, id, hle, fun _ _ => id⟩
  replies _ _ _ h := h.trans ⟨rfl, rfl, rfl, id, Nat.le_refl _, fun _ _ => id⟩
  boosts _ _ h := h.trans ⟨rfl, rfl, rfl, id, Nat.le_refl _, fun _ _ => id⟩
  hints _ _ _ _ hf h := h.trans ⟨rfl, rfl, rfl, id, Nat.le_refl _, fun _ _ => deadline_modifyLock hf⟩
  erase _ _ h := h.trans ⟨rfl, rfl, rfl, id, Nat.le_refl _, fun _ _ => deadline_filter⟩

end Relations

/-! ### Calls of clients -/

section Calls

variable {s : State}

/-- Changes of the locks leave the owners and the connection aside. -/
theorem aside_locks (f : State → State) (hf : ∀ t, (f t).audio = t.audio ∧
    (f t).audioDirty = t.audioDirty ∧ (f t).backend = t.backend ∧ (f t).time = t.time := by
      exact fun _ => ⟨rfl, rfl, rfl, rfl⟩) :
    Keeps (Aside s) (Aside s) (modify f : Op PUnit) :=
  keeps_modify fun t ht => ht.trans ⟨(hf t).1, (hf t).2.1, (hf t).2.2.1, Nat.le_of_eq (hf t).2.2.2.symm⟩

theorem abandon_aside (handle : Int) : Keeps (Aside s) (Aside s) (abandon handle) :=
  (aside_clear s).now.bind fun _ => (aside_locks _).bind fun _ =>
    ((aside_clear s).releaseLocked _).bind fun _ => keeps_throw (fun _ => id) _

theorem holdHints_aside (handle : Int) (untilNs : Nat) (hints : List String) :
    Keeps (Aside s) (Aside s) (holdHints handle untilNs hints) := by
  induction hints with
  | nil => exact keeps_pure _
  | cons hint hints ih =>
      exact (aside_locks _).bind fun _ => ((aside_clear s).apply _ _).bind fun _ =>
        keeps_ite (fun _ => ih) fun _ => abandon_aside _

theorem insertLock_aside (caller : Caller) (durationMs : Nat) :
    Keeps (Aside s) (Aside s) (insertLock caller durationMs) := by
  refine (aside_clear s).now.bind fun t => fun u hu => ?_
  rw [ends_bind, ends_get, ends_bind, ends_set, ends_pure]
  exact hu.trans ⟨rfl, rfl, rfl, Nat.le_refl _⟩

theorem replaceOld_aside (previous handle : Int) :
    Keeps (Aside s) (Aside s) (replaceOld previous handle) :=
  (aside_clear s).now.bind fun _ => (aside_locks _).bind fun _ =>
    ((aside_clear s).releaseLocked _).bind fun _ =>
      keeps_ite (fun _ => (aside_locks _).bind fun _ => keeps_pure _)
        fun _ => (abandon_aside _).bind fun _ => keeps_pure _

theorem acquireHolds_aside (caller : Caller) (handle : Int) (hints : List String) (durationMs : Nat) :
    Keeps (Aside s) (Aside s) (acquireHolds caller handle hints durationMs) :=
  (insertLock_aside _ _).bind fun _ => (holdHints_aside _ _ _).bind fun _ =>
    keeps_ite (fun _ => replaceOld_aside _ _) fun _ => keeps_pure _

theorem releaseEnds_aside (handle : Int) : Keeps (Aside s) (Aside s) (releaseEnds handle) :=
  (aside_clear s).now.bind fun _ => (aside_locks _).bind fun _ =>
    ((aside_clear s).releaseLocked _).bind fun _ => Clear.refuse _ _

theorem unwatch_aside (cookie : Nat) : Keeps (Aside s) (Aside s) (unwatch cookie) :=
  aside_locks _

theorem serviceDied_aside (cookie : Nat) : Keeps (Aside s) (Aside s) (serviceDied cookie) := by
  refine keeps_get.bind fun t => ?_
  cases t.callbacks.find? (·.1 == cookie) with
  | none => exact keeps_pure _
  | some found =>
      refine (keeps_forM (fun handle => ?_) _).bind fun _ => unwatch_aside _
      refine keeps_get.bind fun u => keeps_ite (fun _ => ?_) fun _ => keeps_pure _
      exact (aside_clear s).now.bind fun _ => aside_locks _

/-- A callback that is registered or given up changes nothing that the thread waits for. -/
theorem watch_idle (caller : Caller) : Keeps (Idle s) (Idle s) (watch caller) := by
  intro t ht
  unfold watch refuse
  rw [ends_bind, ends_get, ends_bind]
  split
  · rw [ends_throw]
    exact ht
  · rw [ends_pure, ends_bind, ends_set, ends_pure]
    exact ht.trans ⟨⟨rfl, rfl, rfl, Nat.le_refl _⟩, fun _ _ => id⟩

theorem unwatch_idle (cookie : Nat) : Keeps (Idle s) (Idle s) (unwatch cookie) :=
  keeps_modify fun _ ht => ht.trans ⟨⟨rfl, rfl, rfl, Nat.le_refl _⟩, fun _ _ => id⟩

end Calls

/-! ### The replay -/

section Replay

variable {s : State} {J : State → Prop}

theorem modifyBackend_recovered (f : Backend → Backend)
    (hf : ∀ b, (f b).ready = b.ready ∧ (b.Timed → (f b).Timed) := by exact fun _ => ⟨rfl, id⟩) :
    Keeps (Recovered s) J (modifyBackend f) :=
  keeps_modify fun t ht => ht.trans ⟨rfl, rfl, (hf t.backend).1, (hf t.backend).2, Nat.le_refl _, fun _ _ => id⟩

/-- A connection keeps what has been recovered. -/
theorem connect_recovered : Keeps (Recovered s) J connect := by
  have hlink : Keeps (Recovered s) J linkBackend :=
    keeps_get.bind fun _ => keeps_ite (fun _ => keeps_pure _) fun _ =>
      (recovered_clear s).connectCall.bind fun _ => (modifyBackend_recovered _).bind fun _ =>
        keeps_pure _
  have hpower : Keeps (Recovered s) J findPower :=
    keeps_get.bind fun _ => keeps_ite (fun _ => keeps_pure _) fun _ =>
      (recovered_clear s).connectCall.bind fun _ => modifyBackend_recovered _
  have hext : Keeps (Recovered s) J findExt :=
    keeps_get.bind fun _ => keeps_ite (fun _ => (recovered_clear s).connectCall.bind fun _ =>
      modifyBackend_recovered _) fun _ => keeps_pure _
  exact hlink.bind fun _ => keeps_ite (fun _ => keeps_pure _) fun _ => hpower.bind fun _ => hext.bind fun _ =>
    keeps_get.bind fun _ => keeps_pure _

theorem finishReplay_recovered (restored : Bool) :
    Keeps (Recovered s) J (finishReplay restored) :=
  keeps_ite (fun _ => modifyBackend_recovered _ fun _ => ⟨rfl, fun _ => nofun⟩) fun _ =>
    (recovered_clear s).now.bind fun _ => modifyBackend_recovered _ fun _ => ⟨rfl, fun _ _ => nofun⟩

end Replay

end Mindone.Power
