import Mindone.Power.LocksAcquire

/-!
# Mindone.Power.LocksCalls

The other calls, and the death of a client. **None of them changes a lock of another owner**:
`release` only the lock that it names, a death those of the owner whose callback has gone.
-/

namespace Mindone.Power

open Mindone.Lib

section Calls

variable {s s' : State} {e : Entry} {E : Errno → State → Prop}

/-- The lock is the caller's; a one-way call has no process. -/
def Entry.OwnedBy (e : Entry) (caller : Caller) : Prop :=
  e.owner.uid = caller.uid ∧ (caller.pid = 0 ∨ e.owner.pid = caller.pid)

/-- The invariant is kept, and only these locks have changed. -/
structure Framed (P : Entry → Prop) (s s' : State) : Prop where
  steady : Steady s s'
  good : s'.Good
  locks : ∀ e ∈ s.locks, e ∈ s'.locks ∨ P e

theorem Quiet.framed {P : Entry → Prop} (h : Quiet s s') (hs : s.Good) : Framed P s s' := by
  refine ⟨h.toSteady, h.good hs, ?_⟩
  rw [h.locks]
  exact fun _ he => .inl he

theorem Framed.refl {P : Entry → Prop} (hs : s.Good) : Framed P s s := (Quiet.refl s).framed hs

/-- **`release`.** -/
theorem release_ends (hs : s.Good) (caller : Caller) (handle : Int) :
    Ends (release caller handle) s
      (fun _ s' => Framed (fun e => e.handle = handle ∧ e.OwnedBy caller) s s')
      fun _ s' => Framed (fun e => e.handle = handle ∧ e.OwnedBy caller) s s' := by
  unfold release
  rw [ends_bind, ends_get]
  split
  · rw [ends_throw]
    exact Framed.refl hs
  · rename_i found hfind
    -- The lock is there; only its owner may release it.
    obtain ⟨hmem, rfl⟩ := mem_of_find hfind
    unfold refuse
    rw [ends_bind]
    split
    · rw [ends_throw]
      exact Framed.refl hs
    · rename_i hallowed
      -- A caller without a process id acts for the whole user.
      have howned : found.OwnedBy caller := by
        obtain ⟨huid, hpid⟩ := not_or.mp hallowed
        refine ⟨not_not.mp huid, ?_⟩
        by_cases hzero : caller.pid = 0
        · exact .inl hzero
        · exact .inr (not_not.mp fun hne => hpid ⟨hzero, hne⟩)
      rw [ends_pure, ends_bind]
      refine now_ends.mono (fun t s₁ h₁ => ?_) fun _ _ h => h
      obtain ⟨hquiet, rfl⟩ := h₁
      have hmem₁ : found ∈ s₁.locks := by rw [hquiet.locks]; exact hmem
      rw [ends_bind, ends_modify, ends_bind]
      refine (shorten_ends (hquiet.good hs) hmem₁ (Nat.le_refl _)).mono (fun ok s₂ h₂ => ?_)
        fun _ _ h => h
      have hended := hquiet.ended h₂
      -- The lock ends now, with all others as they were.
      have hframed : Framed (fun e => e.handle = found.handle ∧ e.OwnedBy caller) s s₂ := by
        refine ⟨hended.kin.toSteady, hended.good, fun e he => ?_⟩
        by_cases hk : e.handle = found.handle
        · rw [eq_of_key hs.keys he hmem hk]
          exact .inr ⟨rfl, howned⟩
        · exact .inl ((hended.others e hk).mpr he)
      split
      · rw [ends_throw]
        exact hframed
      · rw [ends_pure]
        exact hframed

/-! ### The death of a client -/

theorem State.Good.cutShort (hs : s.Good) (he : e ∈ s.locks) {time : Nat} (htime : time ≤ s.time) :
    (s.modifyLock e.handle ({ · with untilNs := time, cut := true })).Good := by
  have hsound := hs.toSound.modify (f := ({ · with untilNs := time, cut := true })) he
    (fun _ => rfl) (hs.hints e he) (htime.trans (Nat.le_add_right _ _)) (fun _ => htime)
    (hs.toSound.references_same he fun _ => Iff.rfl)
  refine ⟨hsound, fun hok hext hint => ?_, hs.unsent⟩
  by_cases hmem : hint ∈ e.hints
  · exact .inr ⟨_, (mem_modify hs.keys he).mpr (.inr rfl), rfl, hmem⟩
  · exact (hs.known hok hext hint).modify (f := ({ · with untilNs := time, cut := true }))
      hs.toSound he Iff.rfl (fun h => absurd h hmem) fun _ => rfl

/-- One lock of a client that has died. -/
theorem endLock_ends {s₀ : State} (owner : Caller) (handle : Int)
    (h : Framed (·.owner = owner) s₀ s) :
    Ends (endLock owner handle) s (fun _ s' => Framed (·.owner = owner) s₀ s') E := by
  unfold endLock
  rw [ends_bind, ends_get]
  split
  · rename_i howner
    obtain ⟨e, hfind, howned⟩ := Option.map_eq_some_iff.mp howner
    obtain ⟨hmem, rfl⟩ := mem_of_find hfind
    rw [ends_bind]
    refine now_ends.mono (fun t s₁ h₁ => ?_) fun _ _ h => h
    obtain ⟨hquiet, rfl⟩ := h₁
    rw [ends_modify]
    have hmem₁ : e ∈ s₁.locks := by rw [hquiet.locks]; exact hmem
    have hgood₁ := hquiet.good h.good
    have hsteady := h.steady.trans hquiet.toSteady
    refine ⟨⟨hsteady.next, hsteady.callbacks, hsteady.cookie, hsteady.time, hsteady.failed⟩,
      hgood₁.cutShort hmem₁ (Nat.le_refl _), fun b hb => ?_⟩
    rcases h.locks b hb with hb' | hb'
    · by_cases hk : b.handle = e.handle
      · rw [eq_of_key h.good.keys hb' hmem hk]
        exact .inr howned
      · rw [← hquiet.locks] at hb'
        exact .inl ((mem_modify hgood₁.keys hmem₁).mpr (.inl ⟨hb', hk⟩))
    · exact .inr hb'
  · rw [ends_pure]
    exact h

/-- A callback and the locks of its owner go. -/
structure Buried (cookie : Nat) (s s' : State) : Prop where
  next : s.next ≤ s'.next
  time : s.time ≤ s'.time
  failed : s.failed = true → s'.failed = true
  callbacks : s'.callbacks = s.callbacks.filter (·.1 ≠ cookie)
  good : s'.Good
  locks : ∀ e ∈ s.locks, e ∈ s'.locks ∨ (cookie, e.owner) ∈ s.callbacks

/-- **The death of a client.** -/
theorem serviceDied_ends (hs : s.Good) (cookie : Nat) :
    Ends (serviceDied cookie) s (fun _ s' => Buried cookie s s') E := by
  unfold serviceDied
  rw [ends_bind, ends_get]
  split
  · rename_i hnone
    rw [ends_pure]
    refine ⟨Int.le_refl _, Nat.le_refl _, id, ?_, hs, fun e he => .inl he⟩
    refine (List.filter_eq_self.mpr fun c hc => ?_).symm
    rw [decide_eq_true_eq]
    exact fun heq => List.find?_eq_none.mp hnone c hc (beq_iff_eq.mpr heq)
  · rename_i c owner hfind
    have hfound : (c == cookie) = true :=
      List.find?_some (p := fun callback : Nat × Caller => callback.1 == cookie) hfind
    obtain rfl := beq_iff_eq.mp hfound
    rw [ends_bind]
    refine (ends_forM (I := fun _ s₁ => Framed (·.owner = owner) s s₁)
      (fun handle rest s₁ h => endLock_ends owner handle h) (Framed.refl hs)).mono
      (fun _ s₁ h => ?_) fun _ _ h => h
    unfold unwatch
    rw [ends_modify]
    refine ⟨h.steady.next, h.steady.time, h.steady.failed, ?_, ?_, fun e he => ?_⟩
    · show s₁.callbacks.filter (·.1 ≠ c) = s.callbacks.filter (·.1 ≠ c)
      rw [h.steady.callbacks]
    · exact h.good.same ⟨h.good.keys, h.good.range, h.good.next, h.good.hints, h.good.references,
        h.good.bound, h.good.cut⟩ rfl rfl (Nat.le_refl _) id rfl
    · refine (h.locks e he).imp id fun howner => ?_
      rw [howner]
      exact List.mem_of_find?_eq_some hfind

end Calls

end Mindone.Power
