import Mindone.Mux.RuntimeEndpoints

/-!
# Mindone.Mux.RuntimeTokens

**Poll tokens.** The poll epochs hold exactly the tokens of the slots (`Agreed`), and a
token that was taken back is never current again (`Retired`): generations only grow. An
event that still carries such a token is dropped before anything is read, written or
recreated (`drive_insert`).
-/

namespace Mindone.Mux.Runtime

open Mindone.Lib Transport Ledger

variable {E ω : Type}

/-! ### Slots and epochs -/

/-- The epochs hold the tokens of the slots. -/
structure Agreed (l : Ledger E) : Prop where
  tokens : ∀ c, c ≠ 0 → l.epochs.entries c = (l.slots c).map (·.token)
  endpoint : ∀ c slot, l.slots c = some slot → slot.token.endpoint = .channel (number c)
  known : ∀ c slot, l.slots c = some slot → slot.token.generation ≤ l.generation

/-- A change of a queue leaves the tokens alone. -/
theorem Agreed.setPending {l : Ledger E} (h : Agreed l) {c : Dlci} {slot : Slot E}
    (hslot : l.slots c = some slot) (pending : PendingQueue maxPending) (marks : List Mark) :
    Agreed ((l.setSlot c (some { slot with pending })).note marks) := by
  -- every slot has the token it had
  have hold : ∀ d slot', Function.update l.slots c (some { slot with pending }) d = some slot' →
      ∃ before, l.slots d = some before ∧ slot'.token = before.token := by
    intro d slot' hslot'
    by_cases hdc : d = c
    · subst hdc
      rw [Function.update_self] at hslot'
      cases hslot'
      exact ⟨slot, hslot, rfl⟩
    · rw [Function.update_of_ne hdc] at hslot'
      exact ⟨slot', hslot', rfl⟩
  refine ⟨?_, ?_, ?_⟩
  · intro d hd
    show l.epochs.entries d =
      (Function.update l.slots c (some { slot with pending }) d).map (·.token)
    rw [h.tokens d hd]
    by_cases hdc : d = c
    · subst hdc
      simp [hslot]
    · simp [hdc]
  · intro d slot' hslot'
    obtain ⟨before, hbefore, htoken⟩ := hold d slot' hslot'
    rw [htoken]
    exact h.endpoint d before hbefore
  · intro d slot' hslot'
    obtain ⟨before, hbefore, htoken⟩ := hold d slot' hslot'
    rw [htoken]
    exact h.known d before hbefore

/-- **Slots and epochs agree.** -/
theorem tracked_agreed (env : Env E ω) : Tracked env (Agreed (E := E)) := by
  intro l l' hchange h
  cases hchange with
  -- the counter only grows
  | counted hmore hmax =>
      exact ⟨h.tokens, h.endpoint, fun c slot hslot => Nat.le_trans (h.known c slot hslot) hmore⟩
  -- an epoch that cannot grow is taken away, and so is the entry
  | @exhausted node generation hnode hmore hmax =>
      refine ⟨?_, h.endpoint, fun c slot hslot => Nat.le_trans (h.known c slot hslot) hmore⟩
      intro d hd
      show Function.update l.epochs.entries node none d = _
      by_cases hdn : d = node
      · subst hdn
        rw [Function.update_self]
        show none = (l.slots d).map (·.token)
        rw [hnode.resolve_left hd]
        rfl
      · rw [Function.update_of_ne hdn]
        exact h.tokens d hd
  -- a new endpoint is entered with its own token
  | @created c slot hc hfree hendpoint hfresh hmax hempty hlimit =>
      refine ⟨?_, ?_, ?_⟩
      · intro d hd
        show Function.update l.epochs.entries c (some slot.token) d =
          (Function.update l.slots c (some slot) d).map (·.token)
        by_cases hdc : d = c
        · subst hdc
          simp
        · simp [hdc, h.tokens d hd]
      · intro d slot' hslot'
        have hupdate : Function.update l.slots c (some slot) d = some slot' := hslot'
        by_cases hdc : d = c
        · subst hdc
          rw [Function.update_self] at hupdate
          cases hupdate
          exact hendpoint
        · rw [Function.update_of_ne hdc] at hupdate
          exact h.endpoint d slot' hupdate
      · intro d slot' hslot'
        have hupdate : Function.update l.slots c (some slot) d = some slot' := hslot'
        by_cases hdc : d = c
        · subst hdc
          rw [Function.update_self] at hupdate
          cases hupdate
          exact Nat.le_refl _
        · rw [Function.update_of_ne hdc] at hupdate
          exact Nat.le_trans (h.known d slot' hupdate) (Nat.le_of_lt hfresh)
  -- an endpoint that is closed leaves no entry
  | @closed c hc =>
      have hold : ∀ d slot, Function.update l.slots c none d = some slot → l.slots d = some slot := by
        intro d slot hslot
        by_cases hdc : d = c
        · subst hdc
          rw [Function.update_self] at hslot
          cases hslot
        · rw [Function.update_of_ne hdc] at hslot
          exact hslot
      refine ⟨?_, fun d slot hslot => h.endpoint d slot (hold d slot hslot),
        fun d slot hslot => h.known d slot (hold d slot hslot)⟩
      intro d hd
      show Function.update l.epochs.entries c none d =
        (Function.update l.slots c none d).map (·.token)
      by_cases hdc : d = c
      · subst hdc
        simp
      · simp [hdc, h.tokens d hd]
  | @paused c slot hslot => exact h.setPending hslot _ _
  -- the entry of the line is not one of a channel
  | serialClosed =>
      refine ⟨fun d hd => ?_, h.endpoint, h.known⟩
      show Function.update l.epochs.entries 0 none d = _
      rw [Function.update_of_ne hd]
      exact h.tokens d hd
  | @serialCreated token hendpoint hfresh hmax =>
      refine ⟨fun d hd => ?_, h.endpoint,
        fun c slot hslot => Nat.le_trans (h.known c slot hslot) (Nat.le_of_lt hfresh)⟩
      show Function.update l.epochs.entries 0 (some token) d = _
      rw [Function.update_of_ne hd]
      exact h.tokens d hd
  | appended hslot hsome hpending => exact h.setPending hslot _ _
  | buffered hslot hempty hpending => exact h.setPending hslot _ _
  | drained hslot hpending hlimit => exact h.setPending hslot _ _
  | emptied =>
      exact ⟨fun _ _ => rfl, fun _ _ hslot => (by cases hslot), fun _ _ hslot => (by cases hslot)⟩
  | _ => exact ⟨h.tokens, h.endpoint, h.known⟩

/-! ### Tokens that were taken back -/

/-- The token is known, and it is current only while `alive` holds and its endpoint has
not been closed since the history was `n` marks long. -/
structure Untouched (token : PollToken) (alive : Prop) (n : Nat) (l : Ledger E) : Prop where
  known : token.generation ≤ l.generation
  current : ∀ node, token.endpoint.slot = .ok node → l.epochs.entries node = some token →
    alive ∧ Mark.closed node ∉ l.history.drop n

/-- A change of the history alone, which closes nothing. -/
theorem Untouched.note {token : PollToken} {alive : Prop} {n : Nat} {l : Ledger E}
    (h : Untouched token alive n l) {marks : List Mark} (hmarks : ∀ node, Mark.closed node ∉ marks) :
    Untouched token alive n (l.note marks) := by
  refine ⟨h.known, fun node hnode hentry => ?_⟩
  obtain ⟨halive, hopen⟩ := h.current node hnode hentry
  refine ⟨halive, fun hclosed => ?_⟩
  have hdrop : Mark.closed node ∈ (l.history ++ marks).drop n := hclosed
  rw [List.drop_append] at hdrop
  rcases List.mem_append.mp hdrop with hold | hnew
  · exact hopen hold
  · exact hmarks node (List.mem_of_mem_drop hnew)

/-- The slots do not matter. -/
theorem Untouched.setSlot {token : PollToken} {alive : Prop} {n : Nat} {l : Ledger E}
    (h : Untouched token alive n l) (c : Dlci) (slot : Option (Slot E)) :
    Untouched token alive n (l.setSlot c slot) := ⟨h.known, h.current⟩

/-- A node without a token. -/
theorem Untouched.clear {token : PollToken} {alive : Prop} {n : Nat} {l : Ledger E}
    (h : Untouched token alive n l) (node : Dlci) :
    Untouched token alive n (l.setToken node none) := by
  refine ⟨h.known, fun d hnode hentry => ?_⟩
  have hupdate : Function.update l.epochs.entries node none d = some token := hentry
  by_cases hd : d = node
  · subst hd
    rw [Function.update_self] at hupdate
    cases hupdate
  · rw [Function.update_of_ne hd] at hupdate
    exact h.current d hnode hupdate

/-- A node whose token is taken back. -/
theorem Untouched.close {token : PollToken} {alive : Prop} {n : Nat} {l : Ledger E}
    (h : Untouched token alive n l) {node : Dlci} {marks : List Mark}
    (hmarks : ∀ d, Mark.closed d ∈ marks → d = node) :
    Untouched token alive n ((l.setToken node none).note marks) := by
  refine ⟨h.known, fun d hnode hentry => ?_⟩
  have hupdate : Function.update l.epochs.entries node none d = some token := hentry
  by_cases hd : d = node
  · subst hd
    rw [Function.update_self] at hupdate
    cases hupdate
  · rw [Function.update_of_ne hd] at hupdate
    obtain ⟨halive, hopen⟩ := h.current d hnode hupdate
    refine ⟨halive, fun hclosed => ?_⟩
    have hdrop : Mark.closed d ∈ (l.history ++ marks).drop n := hclosed
    rw [List.drop_append] at hdrop
    rcases List.mem_append.mp hdrop with hold | hnew
    · exact hopen hold
    · exact hd (hmarks d (List.mem_of_mem_drop hnew))

/-- A node with a token of a new generation. -/
theorem Untouched.fresh {token new : PollToken} {alive : Prop} {n : Nat} {l : Ledger E}
    (h : Untouched token alive n l) (node : Dlci) (hfresh : l.generation < new.generation) :
    Untouched token alive n ((l.setGeneration new.generation).setToken node (some new)) := by
  refine ⟨Nat.le_trans h.known (Nat.le_of_lt hfresh), fun d hnode hentry => ?_⟩
  have hupdate : Function.update l.epochs.entries node (some new) d = some token := hentry
  by_cases hd : d = node
  · subst hd
    rw [Function.update_self] at hupdate
    cases hupdate
    exact absurd h.known (Nat.not_le.mpr hfresh)
  · rw [Function.update_of_ne hd] at hupdate
    exact h.current d hnode hupdate

theorem closed_mem_dropMarks {slots : Dlci → Option (Slot E)} {c d : Dlci}
    (h : Mark.closed d ∈ dropMarks slots c) : d = c := by
  unfold dropMarks at h
  split at h
  · cases h
  · simpa using h

/-- **A token is never current behind a mark that closes its endpoint.** -/
theorem tracked_untouched (env : Env E ω) (token : PollToken) (alive : Prop) (n : Nat) :
    Tracked env (Untouched (E := E) token alive n) := by
  intro l l' hchange h
  cases hchange with
  | same => exact h
  | queued frame => exact h.note (by simp)
  | opened cs => exact h.note (by simp)
  | counted hmore hmax => exact ⟨Nat.le_trans h.known hmore, h.current⟩
  | @exhausted node generation hnode hmore hmax =>
      have hcounted : Untouched token alive n (l.setGeneration generation) :=
        ⟨Nat.le_trans h.known hmore, h.current⟩
      exact hcounted.clear node
  | created hc hfree hendpoint hfresh hmax hempty hlimit =>
      exact ((h.fresh _ hfresh).setSlot _ _).note (by simp)
  | closed hc => exact (h.close fun _ => closed_mem_dropMarks).setSlot _ _
  | paused hslot => exact (h.setSlot _ _).note (by simp)
  | serialClosed => exact h.close (by simp)
  | serialCreated hendpoint hfresh hmax => exact h.fresh _ hfresh
  | refused hslot => exact h.note (by simp)
  | appended hslot hsome hpending => exact (h.setSlot _ _).note (by simp)
  | written hslot hempty => exact h.note (by simp)
  | broken hslot hempty => exact h.note (by simp)
  | buffered hslot hempty hpending => exact (h.setSlot _ _).note (by simp)
  | lost hslot hlost => exact h.note (by simp)
  | drained hslot hpending hlimit => exact (h.setSlot _ _).note (by simp)
  | emptied => exact ⟨h.known, fun _ _ hentry => by cases hentry⟩

/-- A token of an earlier generation that is not current. -/
def Retired (token : PollToken) (l : Ledger E) : Prop :=
  token.generation ≤ l.generation ∧ l.epochs.isCurrent token = false

theorem isCurrent_iff {epochs : PollEpochs} {token : PollToken} :
    epochs.isCurrent token = true ↔
      ∃ node, token.endpoint.slot = .ok node ∧ epochs.entries node = some token := by
  unfold PollEpochs.isCurrent
  cases token.endpoint.slot with
  | error e => simp
  | ok node => simp

theorem retired_iff {token : PollToken} {l : Ledger E} (n : Nat) :
    Retired token l ↔ Untouched token False n l := by
  constructor
  · rintro ⟨hknown, hcurrent⟩
    refine ⟨hknown, fun node hnode hentry => ?_⟩
    rw [isCurrent_iff.mpr ⟨node, hnode, hentry⟩] at hcurrent
    cases hcurrent
  · intro h
    refine ⟨h.known, Bool.eq_false_iff.mpr fun hcurrent => ?_⟩
    obtain ⟨node, hnode, hentry⟩ := isCurrent_iff.mp hcurrent
    exact (h.current node hnode hentry).1

/-- **A retired token stays retired.** -/
theorem tracked_retired (env : Env E ω) (token : PollToken) : Tracked env (Retired (E := E) token) := by
  intro l l' hchange h
  exact (retired_iff 0).mpr (tracked_untouched env token False 0 _ _ hchange ((retired_iff 0).mp h))

/-! ### The token of the serial line -/

theorem tracked_generation (env : Env E ω) (n : Nat) :
    Tracked env fun l : Ledger E => n ≤ l.generation := by
  intro l l' hchange hl
  cases hchange with
  | counted hmore hmax => exact Nat.le_trans hl hmore
  | exhausted hnode hmore hmax => exact Nat.le_trans hl hmore
  | created hc hfree hendpoint hfresh hmax hempty hlimit =>
      exact Nat.le_trans hl (Nat.le_of_lt hfresh)
  | serialCreated hendpoint hfresh hmax => exact Nat.le_trans hl (Nat.le_of_lt hfresh)
  | _ => exact hl

/-- The runtime's token of the serial line is one that was given out. -/
structure SerialKnown (v : View E) : Prop where
  basic : Basic v.session v.ledger
  token : ∀ token, v.serialToken = some token →
    token.endpoint = .serial ∧ token.generation ≤ v.ledger.generation

section SerialKnown

variable {env : Env E ω} {α : Type}

/-- What leaves the runtime's token alone, and lets the generations grow, keeps it
known. -/
theorem ends_serialKnown {p : Act E ω α} (hleaves : Leaves (·.serialToken) p) {t : Turn E ω}
    (ht : Turn.Within SerialKnown t)
    (hgrows : ∀ n, Turn.Within (both (Recorded fun l : Ledger E => n ≤ l.generation)) t →
      Ends p t (fun _ => Turn.Within (both (Recorded fun l : Ledger E => n ≤ l.generation)))
        fun _ => Turn.Within (both (Recorded fun l : Ledger E => n ≤ l.generation))) :
    Ends p t (fun _ => Turn.Within SerialKnown) fun _ => Turn.Within SerialKnown := by
  have hbasic : Basic t.runtime.session t.runtime.context.ledger := ht.basic
  have hlater : ∀ t' : Turn E ω,
      Turn.Within (both (Recorded fun l : Ledger E => t.runtime.context.generation ≤ l.generation)) t' ∧
        t'.runtime.serialToken = t.runtime.serialToken → Turn.Within SerialKnown t' := by
    rintro t' ⟨⟨hbasic', hmore⟩, hsame⟩
    refine ⟨hbasic', fun token htoken => ?_⟩
    obtain ⟨hserial, hknown⟩ := ht.token token (hsame.symm.trans htoken)
    exact ⟨hserial, Nat.le_trans hknown hmore⟩
  exact ((hgrows _ ⟨hbasic, Nat.le_refl _⟩).and (hleaves t)).mono (fun _ => hlater) fun _ => hlater

theorem keeps_serialKnown {p : Act E ω α} (hleaves : Leaves (·.serialToken) p)
    (hgrows : ∀ n, Keeps (Turn.Within (both (Recorded fun l : Ledger E => n ≤ l.generation)))
      (Turn.Within (both (Recorded fun l : Ledger E => n ≤ l.generation))) p) :
    Keeps (Turn.Within SerialKnown) (Turn.Within SerialKnown) p :=
  fun _ ht => ends_serialKnown hleaves ht fun n => hgrows n _

theorem serialToken_sessionDo {op : Session.Op (Context E ω) α} :
    Leaves (·.serialToken) (sessionDo op) := leaves_sessionDo fun _ _ _ => rfl

theorem serialToken_onContext {p : EStateM Error (Context E ω × TurnBudget) α} :
    Leaves (·.serialToken) (onContext p) := leaves_onContext fun _ _ => rfl

theorem leaves_drainChannel (c : Dlci) : Leaves (·.serialToken) (drainChannel env c) := by
  refine serialToken_onContext.bind fun stop => ?_
  match stop with
  | none => exact leaves_pure _
  | some .complete =>
      exact (leaves_look _).bind fun _ => leaves_ite serialToken_sessionDo (leaves_pure _)
  | some .yielded => exact leaves_pure _
  | some .blocked => exact leaves_pure _
  | some .deviceReset | some .endOfStream | some .failure | some .noProgress
  | some .invalidProgress | some .rejected | some .invalidBuffer => exact serialToken_sessionDo

theorem leaves_closeLocally (now : Nat) : Leaves (·.serialToken) (closeLocally env now) := by
  have hall : Leaves (·.serialToken) (disconnectOpen env) :=
    leaves_forM (fun c => (leaves_look _).bind fun _ =>
      leaves_ite serialToken_sessionDo (leaves_pure _)) _
  exact hall.bind fun _ => (leaves_after now 2000).bind fun _ => leaves_change fun _ => rfl

theorem leaves_peerClose (now : Nat) : Leaves (·.serialToken) (peerClose now : Act E ω Unit) :=
  serialToken_sessionDo.bind fun _ => (leaves_after now closeFlushMs).bind fun _ =>
    leaves_change fun _ => rfl

/-- At the switch to the multiplexer the token is replaced by a new one. -/
theorem keeps_serialKnown_enterMux (now : Nat) :
    Keeps (Turn.Within SerialKnown) (Turn.Within SerialKnown) (enterMux env now) := by
  -- The session's `begin` and the look at the serial slot leave the token.
  have hrules := fun n => (tracked_generation env n).steady
  refine Keeps.bind ?_ fun _ => ?_
  · exact keeps_serialKnown serialToken_sessionDo fun n =>
      (hrules n).sessionDo (.begin now) rfl fun _ => rfl
  refine Keeps.bind ?_ fun serial => ?_
  · exact keeps_serialKnown leaves_theSerial fun n => leaves_theSerial.keeps fun _ hv => hv
  intro t ht
  have hbasic : Basic t.runtime.session t.runtime.context.ledger := ht.basic
  -- The old token is struck out before the new one is asked for.
  have hinvalidate : t.runtime.context.epochs.invalidate .serial =
      .ok ⟨Function.update t.runtime.context.epochs.entries 0 none⟩ := rfl
  have hnode : EndpointId.serial.slot = .ok 0 := rfl
  rw [ends_bind, ends_look, hinvalidate]
  dsimp only
  rw [ends_bind, ends_change, ends_bind, ends_look]
  dsimp only
  -- The new one may be refused; the generation has then still only grown.
  rcases replaceEpoch_spec env ({ t.runtime.context with
    epochs := ⟨Function.update t.runtime.context.epochs.entries 0 none⟩ }.note (.closed 0)) hnode
    (env.descriptor serial) with
    ⟨generation, context, hmore, hmax, hreplace, hledger⟩ |
    ⟨token, context, hendpoint, hfresh, hmax, hreplace, hledger⟩
  · rw [hreplace]
    simp only [ends_bind, ends_change]
    refine (ends_throw _).mpr ?_
    have hsame : context.ledger.frameLimit = t.runtime.context.frameLimit ∧
        context.ledger.generation = generation := by
      rcases hledger with hledger | hledger
      · rw [hledger]
        exact ⟨rfl, rfl⟩
      · rw [hledger]
        exact ⟨rfl, rfl⟩
    refine ⟨⟨hbasic.sound, hbasic.limit.trans hsame.1.symm, ?_⟩, fun token htoken => ?_⟩
    · exact hsame.2 ▸ hmax
    · obtain ⟨hserial, hknown⟩ := ht.token token htoken
      refine ⟨hserial, Nat.le_trans hknown ?_⟩
      show t.runtime.context.generation ≤ context.ledger.generation
      rw [hsame.2]
      exact hmore hbasic.bounded
  · rw [hreplace]
    refine ends_change.mpr ⟨⟨hbasic.sound, ?_, ?_⟩, fun token' htoken' => ?_⟩
    · show t.runtime.session.limit = context.ledger.frameLimit
      rw [hledger]
      exact hbasic.limit
    · show context.ledger.generation ≤ u64Max
      rw [hledger]
      exact hmax
    · cases htoken'
      refine ⟨hendpoint, ?_⟩
      show token.generation ≤ context.ledger.generation
      rw [hledger]
      exact Nat.le_refl _

/-- **The token of the serial line is known.** -/
theorem serialKnown_rules (env : Env E ω) : Rules env (SerialKnown (E := E)) SerialKnown := by
  have hrules := fun n => (tracked_generation env n).steady.rules
  exact
    { weaken := fun _ => id
      receive := fun {t frame} ht _ => keeps_serialKnown serialToken_sessionDo
        (fun n => (tracked_generation env n).steady.sessionDo (.receive frame) rfl
          fun st => Session.step_receive st frame) t ht
      sendControl := fun hanswers => keeps_serialKnown serialToken_sessionDo fun n =>
        (hrules n).sendControl hanswers
      applyPeerSignals := fun channel signals => keeps_serialKnown serialToken_sessionDo fun n =>
        (hrules n).applyPeerSignals channel signals
      data := fun {t c payload} ht hands => ends_serialKnown (leaves_data (fun _ _ _ => rfl) env c payload) ht
        fun n hn => (hrules n).data hn hands
      enterMux := keeps_serialKnown_enterMux
      pollTimeout := fun now pending => keeps_serialKnown serialToken_sessionDo fun n =>
        (hrules n).pollTimeout now pending
      recoveryTick := fun {t now} ht _ => keeps_serialKnown serialToken_sessionDo
        (fun n => (tracked_generation env n).steady.sessionDo (.recoveryTick now) rfl
          fun st => Session.step_recoveryTick st now) t ht
      closeLocally := fun now => keeps_serialKnown (leaves_closeLocally now) fun n =>
        (hrules n).closeLocally now
      peerClose := fun now => keeps_serialKnown (leaves_peerClose now) fun n =>
        (hrules n).peerClose now
      finishClose := fun now => by
        refine keeps_serialKnown (Leaves.bind (leaves_change ?_) fun _ => leaves_peerClose now)
          fun n => (hrules n).finishClose now
        exact fun _ => rfl
      applicationInput := fun c => keeps_serialKnown serialToken_sessionDo fun n =>
        (hrules n).applicationInput c
      recreate := fun c => keeps_serialKnown serialToken_sessionDo fun n => (hrules n).recreate c
      drainChannel := fun c => keeps_serialKnown (leaves_drainChannel c) fun n =>
        (hrules n).drainChannel c
      closeAll := fun r state hr => by
        have hclosed := (hrules 0).closeAll r state ⟨hr.basic, Nat.zero_le _⟩
        exact ⟨hclosed.1, fun token htoken => by cases htoken⟩ }

end SerialKnown

/-! ### Stale events -/

section Stale

variable {α β : Type}

/-- The same result with one more stale event. -/
def countedMore : EStateM.Result Error (Turn E ω × Nat) α → EStateM.Result Error (Turn E ω × Nat) α
  | .ok a (t, n) => .ok a (t, n + 1)
  | .error e (t, n) => .error e (t, n + 1)

/-- The count of stale events is never looked at. -/
def Blind (p : Service E ω α) : Prop := ∀ t n, p (t, n + 1) = countedMore (p (t, n))

theorem blind_pure (a : α) : Blind (pure a : Service E ω α) := fun _ _ => rfl

theorem blind_throw (e : Error) : Blind (throw e : Service E ω α) := fun _ _ => rfl

theorem blind_act (p : Act E ω α) : Blind (act p) := by
  intro t n
  unfold act
  dsimp only
  cases p t with
  | ok a t' => rfl
  | error e t' => rfl

theorem blind_addStale (k : Nat) : Blind (addStale k : Service E ω Unit) := by
  intro t n
  show EStateM.Result.ok () (t, n + 1 + k) = EStateM.Result.ok () (t, n + k + 1)
  rw [Nat.add_right_comm]

theorem Blind.bind {p : Service E ω α} {f : α → Service E ω β} (hp : Blind p)
    (hf : ∀ a, Blind (f a)) : Blind (p >>= f) := by
  intro t n
  show EStateM.bind p f (t, n + 1) = countedMore (EStateM.bind p f (t, n))
  unfold EStateM.bind
  rw [hp t n]
  cases p (t, n) with
  | ok a s => exact hf a s.1 s.2
  | error e s => rfl

theorem blind_ite {c : Prop} [Decidable c] {p q : Service E ω α} (hp : Blind p) (hq : Blind q) :
    Blind (if c then p else q) := by
  split
  · exact hp
  · exact hq

theorem blind_onlyIf {c : Prop} [Decidable c] {p : Service E ω Unit} (hp : Blind p) :
    Blind (onlyIf c p) := blind_ite hp (blind_pure _)

variable (env : Env E ω)

theorem blind_serveSerial (now : Nat) (event : Ready) : Blind (serveSerial env now event) := by
  refine (blind_onlyIf (blind_act _)).bind fun _ => (blind_act _).bind fun early => ?_
  refine (blind_onlyIf (blind_act _)).bind fun _ => (blind_onlyIf (blind_act _)).bind fun _ => ?_
  refine (blind_act _).bind fun state => (blind_act _).bind fun current => ?_
  refine (blind_onlyIf (blind_act _)).bind fun _ => (blind_act _).bind fun still => ?_
  refine blind_ite ?_ ((blind_addStale 1).bind fun _ => blind_pure _)
  exact (blind_onlyIf (blind_act _)).bind fun _ => blind_ite (blind_throw _) (blind_pure _)

theorem blind_serveChannel (c : Dlci) (event : Ready) : Blind (serveChannel env c event) := by
  refine (blind_act _).bind fun r => blind_ite ?_ (blind_pure _)
  refine blind_ite (blind_pure _) ?_
  refine (blind_onlyIf (blind_act _)).bind fun _ => (blind_act _).bind fun still => ?_
  refine blind_ite (blind_ite ?_ ?_) ((blind_addStale 1).bind fun _ => blind_pure _)
  · exact (blind_act _).bind fun _ => blind_pure _
  · exact (blind_onlyIf (blind_act _)).bind fun _ => blind_pure _

theorem blind_serveLoop (now callLimit : Nat) (ready : Dlci → Option Ready) (offsets : List Nat) :
    Blind (serveLoop env now callLimit ready offsets) := by
  induction offsets with
  | nil => exact blind_pure _
  | cons offset rest ih =>
      refine (blind_act _).bind fun cursor => ?_
      cases hnode : ready (Fin.ofNat 64 (cursor + offset)) with
      | none =>
          simp only [hnode]
          exact ih
      | some event =>
          simp only [hnode]
          refine (blind_act _).bind fun current => ?_
          refine blind_ite ?_ ((blind_addStale 1).bind fun _ => ih)
          refine Blind.bind ?_ fun served => (blind_act _).bind fun finished => ?_
          · exact blind_ite (blind_serveSerial env now event) (blind_serveChannel env _ event)
          · exact blind_ite (blind_act _) ih

/-- An event that is not current is counted and dropped. -/
theorem sortEvent_stale {epochs : PollEpochs} {event : Ready}
    (h : epochs.isCurrent event.token = false) (sorted : (Dlci → Option Ready) × Nat) :
    sortEvent epochs sorted event = (sorted.1, sorted.2 + 1) := by
  unfold sortEvent
  cases event.token.endpoint.slot with
  | error e => rfl
  | ok node =>
      dsimp only
      rw [h]
      rfl

theorem foldl_sortEvent_succ (epochs : PollEpochs) (ready : Dlci → Option Ready) (n : Nat)
    (events : List Ready) :
    events.foldl (sortEvent epochs) (ready, n + 1) =
      ((events.foldl (sortEvent epochs) (ready, n)).1,
        (events.foldl (sortEvent epochs) (ready, n)).2 + 1) := by
  induction events generalizing ready n with
  | nil => rfl
  | cons event rest ih =>
      have hstep : sortEvent epochs (ready, n + 1) event =
          ((sortEvent epochs (ready, n) event).1, (sortEvent epochs (ready, n) event).2 + 1) := by
        unfold sortEvent
        cases event.token.endpoint.slot with
        | error e => rfl
        | ok node =>
            dsimp only
            split
            · cases ready node with
              | none => rfl
              | some current => rfl
            · rfl
      rw [List.foldl_cons, List.foldl_cons, hstep, ih]

theorem collect_insert {epochs : PollEpochs} {event : Ready}
    (h : epochs.isCurrent event.token = false) (before behind : List Ready) :
    collect epochs (before ++ event :: behind) =
      ((collect epochs (before ++ behind)).1, (collect epochs (before ++ behind)).2 + 1) := by
  unfold collect
  rw [List.foldl_append, List.foldl_cons, sortEvent_stale h, foldl_sortEvent_succ,
    List.foldl_append]

theorem serveEvents_insert {t : Turn E ω} {event : Ready}
    (h : t.runtime.context.epochs.isCurrent event.token = false) (now : Nat)
    (before behind : List Ready) (callLimit n : Nat) :
    serveEvents env now (before ++ event :: behind) callLimit (t, n) =
      countedMore (serveEvents env now (before ++ behind) callLimit (t, n)) := by
  have hserve : ∀ events, serveEvents env now events callLimit (t, n) =
      (serveLoop env now callLimit (collect t.runtime.context.epochs events).1 (List.range 64) >>=
        fun _ => act (closeTurn env now)) (t, n + (collect t.runtime.context.epochs events).2) :=
    fun _ => rfl
  rw [hserve, hserve, collect_insert h, ← Nat.add_assoc]
  exact ((blind_serveLoop env now callLimit _ _).bind fun _ => blind_act _) _ _

/-- A turn that is not refused: its first part, and then the events. -/
theorem runTurn_eq {now : Nat} {events : List Ready} (callLimit : Nat) {t : Turn E ω} (n : Nat)
    (hnow : ¬ now < t.runtime.lastNow) (hlength : ¬ events.length > maxChannels + 1) :
    runTurn env now events callLimit (t, n) =
      match openTurn env now (t.runtime.serialReadable events)
        { t with runtime := { t.runtime with lastNow := now, polloutTurn := false } } with
      | .error e t => .error e (t, n)
      | .ok finished t => if finished then .ok () (t, n) else serveEvents env now events callLimit (t, n) := by
  have hstart : runTurn env now events callLimit (t, n) = (do
      let finished ← act (openTurn env now (t.runtime.serialReadable events))
      if finished then pure () else serveEvents env now events callLimit : Service E ω Unit)
        ({ t with runtime := { t.runtime with lastNow := now, polloutTurn := false } }, n) := by
    show (if now < t.runtime.lastNow then _
      else if events.length > maxChannels + 1 then _ else _ : Service E ω Unit) (t, n) = _
    rw [if_neg hnow, if_neg hlength]
    rfl
  rw [hstart]
  show EStateM.bind _ _ _ = _
  unfold EStateM.bind act
  dsimp only
  cases openTurn env now (t.runtime.serialReadable events)
      { t with runtime := { t.runtime with lastNow := now, polloutTurn := false } } with
  | error e t => rfl
  | ok finished t =>
      cases finished with
      | true => rfl
      | false => rfl

/-- A turn ends early only where the runtime is closed. -/
theorem openTurn_over {now : Nat} {readable : Bool} {t t' : Turn E ω}
    (h : openTurn env now readable t = .ok true t') : t'.runtime.state = .closed := by
  have hends : Ends (openTurn env now readable) t
      (fun finished t' => finished = true → t'.runtime.state = .closed) fun _ _ => True := by
    unfold openTurn
    rw [ends_bind, ends_look, ends_ite]
    split
    · rw [ends_bind, ends_change]
      exact (ends_pure _).mpr fun _ => rfl
    · rw [ends_bind]
      refine (ends_true _ _).mono ?_ fun _ _ _ => trivial
      intro _ t₁ _
      rw [ends_bind]
      refine (ends_true _ _).mono ?_ fun _ _ _ => trivial
      intro _ t₂ _
      rw [ends_bind]
      refine (ends_true _ _).mono ?_ fun _ _ _ => trivial
      intro _ t₃ _
      exact (ends_pure _).mpr fun hover => by cases hover
  exact (ends_of_ok h).mp hends rfl

/-- The result of a turn with a stale event, and of the same turn without it. -/
def OnlyCounted (r r' : EStateM.Result Error (Turn E ω × Nat) Unit) : Prop :=
  r' = countedMore r ∨
    r' = r ∧ ∀ a s, r = .ok a s → s.1.runtime.state = .closed

/-- **An event for a retired token does nothing** but count, wherever it stands. -/
theorem runTurn_insert {t : Turn E ω} {event : Ready} {before behind : List Ready}
    (ht : Turn.Within (both (Recorded (Retired event.token))) t)
    (hlength : before.length + behind.length + 1 ≤ maxChannels + 1) (now callLimit n : Nat) :
    OnlyCounted (runTurn env now (before ++ behind) callLimit (t, n))
      (runTurn env now (before ++ event :: behind) callLimit (t, n)) := by
  have hfits : ¬ (before ++ event :: behind).length > maxChannels + 1 := by
    rw [List.length_append, List.length_cons]
    omega
  have hfits' : ¬ (before ++ behind).length > maxChannels + 1 := by
    rw [List.length_append]
    omega
  by_cases hnow : now < t.runtime.lastNow
  · -- the clock went back, so neither turn looks at its events
    have hrefused : ∀ events, runTurn env now events callLimit (t, n) =
        .error .clockRegression (t, n) := by
      intro events
      show (if now < t.runtime.lastNow then _ else _ : Service E ω Unit) (t, n) = _
      rw [if_pos hnow]
      rfl
    rw [hrefused, hrefused]
    exact Or.inr ⟨rfl, fun _ _ h => by cases h⟩
  have hstale : t.runtime.context.epochs.isCurrent event.token = false := ht.2.2
  have hreadable : t.runtime.serialReadable (before ++ event :: behind) =
      t.runtime.serialReadable (before ++ behind) := by
    unfold serialReadable
    simp [hstale]
  rw [runTurn_eq env callLimit n hnow hfits, runTurn_eq env callLimit n hnow hfits', hreadable]
  -- the token is still retired when the events are looked at
  have hopened := (tracked_retired env event.token).steady.rules.openTurn now
    (t.runtime.serialReadable (before ++ behind))
    { t with runtime := { t.runtime with lastNow := now, polloutTurn := false } } ht
  cases hopen : openTurn env now (t.runtime.serialReadable (before ++ behind))
      { t with runtime := { t.runtime with lastNow := now, polloutTurn := false } } with
  | error e t' => exact Or.inr ⟨rfl, fun _ _ h => by cases h⟩
  | ok finished t' =>
      have hretired : Turn.Within (both (Recorded (Retired event.token))) t' :=
        (ends_of_ok hopen).mp hopened
      cases finished with
      | true =>
          refine Or.inr ⟨rfl, fun _ s h => ?_⟩
          cases h
          exact openTurn_over env hopen
      | false => exact Or.inl (serveEvents_insert env hretired.2.2 now before behind callLimit n)

/-- What the report says of a turn with one more stale event. -/
theorem OnlyCounted.conclude {r r' : EStateM.Result Error (Turn E ω × Nat) Unit}
    (h : OnlyCounted r r') :
    (conclude r').2 = (conclude r).2 ∧
      ((conclude r').1 =
          { (conclude r).1 with staleEvents := (conclude r).1.staleEvents + 1 } ∨
        (conclude r').1 = (conclude r).1 ∧
          ((conclude r).1.state = .closed ∨ (conclude r).1.state = .failed)) := by
  rcases h with rfl | ⟨rfl, hclosed⟩
  · cases r with
    | ok a s => exact ⟨rfl, Or.inl rfl⟩
    | error e s => exact ⟨rfl, Or.inl rfl⟩
  · refine ⟨rfl, Or.inr ⟨rfl, ?_⟩⟩
    cases r' with
    | ok a s => exact Or.inl (hclosed a s rfl)
    | error e s => exact Or.inr rfl

end Stale

/-- With `event` in the list, the runtime, its devices and the report are what they are
without it, except that it may be counted as stale; uncounted it stays where the turn
ends before the events are looked at. -/
def AtMostCounted (env : Env E ω) (r : Runtime E ω) (now : Nat) (limits : Limits)
    (before : List Ready) (event : Ready) (behind : List Ready) : Prop :=
  let without := drive env r now (before ++ behind) limits
  let inserted := drive env r now (before ++ event :: behind) limits
  inserted.2 = without.2 ∧
    (inserted.1 = { without.1 with staleEvents := without.1.staleEvents + 1 } ∨
      inserted.1 = without.1 ∧ (without.1.state = .closed ∨ without.1.state = .failed))

/-- **An event with a retired token is at most counted.** -/
theorem drive_insert (env : Env E ω) {r : Runtime E ω} {event : Ready} {before behind : List Ready}
    (hr : Recorded (Retired event.token) r.session r.context.ledger)
    (hlength : before.length + behind.length + 1 ≤ maxChannels + 1) (now : Nat) (limits : Limits) :
    AtMostCounted env r now limits before event behind := by
  unfold AtMostCounted drive
  dsimp only
  split
  · rename_i hover
    exact ⟨rfl, Or.inr ⟨rfl, hover⟩⟩
  · split
    · exact ⟨rfl, Or.inr ⟨rfl, Or.inr rfl⟩⟩
    · rename_i budget hbudget
      have ht : Turn.Within (both (Recorded (Retired event.token)))
          ⟨{ r with context := { r.context with discarded := 0 } }, budget, 0⟩ := hr
      exact (runTurn_insert env ht hlength now limits.calls 0).conclude

/-- What comes of a turn with more events than there are nodes: no device is used, no event is
counted, and a runtime that is not over fails with `Error::Configuration`, unless its clock has run
back. -/
structure Refused (env : Env E ω) (r : Runtime E ω) (now : Nat) (events : List Ready)
    (limits : Limits) : Prop where
  world : (drive env r now events limits).2.context.world = r.context.world
  uncounted : (drive env r now events limits).1.staleEvents = 0
  ended : r.state = .closed ∨ r.state = .failed → (drive env r now events limits).2 = r
  configuration : r.state ≠ .closed → r.state ≠ .failed → r.lastNow ≤ now →
    (drive env r now events limits).1.state = .failed ∧
      (drive env r now events limits).1.error = some .configuration

/-- A turn with more events than there are nodes stops before anything is asked. -/
theorem runTurn_oversized (env : Env E ω) (t : Turn E ω) {events : List Ready}
    (hlength : events.length > maxChannels + 1) (now callLimit n : Nat) :
    runTurn env now events callLimit (t, n) =
      .error (if now < t.runtime.lastNow then .clockRegression else .configuration) (t, n) := by
  show (if now < t.runtime.lastNow then _
    else if events.length > maxChannels + 1 then _ else _ : Service E ω Unit) _ = _
  by_cases hnow : now < t.runtime.lastNow
  · rw [if_pos hnow, if_pos hnow]
    rfl
  · rw [if_neg hnow, if_pos hlength, if_neg hnow]
    rfl

/-- A list with more events than there are nodes is refused before a device is used. -/
theorem drive_oversized (env : Env E ω) (r : Runtime E ω) {events : List Ready}
    (hlength : events.length > maxChannels + 1) (now : Nat) (limits : Limits) :
    Refused env r now events limits := by
  by_cases hover : r.state = .closed ∨ r.state = .failed
  · have hdrive : drive env r now events limits = (⟨r.state, r.error, 0, 0, 0, 0, 0⟩, r) := if_pos hover
    refine ⟨?_, ?_, fun _ => ?_, fun hclosed hfailed => absurd hover (by simp [hclosed, hfailed])⟩
    all_goals rw [hdrive]
  -- the runtime fails with an error, which is the budget's, the clock's or the list's
  have hfails : ∃ error report, drive env r now events limits =
      (report, ({ r with context := { r.context with discarded := 0 } } : Runtime E ω).fail error) ∧
      report.staleEvents = 0 ∧ report.state = .failed ∧ report.error = some error ∧
      (r.lastNow ≤ now → error = .configuration) := by
    unfold drive
    rw [if_neg hover]
    dsimp only
    split
    · exact ⟨.configuration, _, rfl, rfl, rfl, rfl, fun _ => rfl⟩
    · rename_i budget hbudget
      rw [runTurn_oversized env _ hlength]
      exact ⟨_, _, rfl, rfl, rfl, rfl, fun hle => if_neg (Nat.not_lt.mpr hle)⟩
  obtain ⟨error, report, hdrive, hstale, hstate, herror, hconfiguration⟩ := hfails
  refine ⟨?_, ?_, fun hnow => absurd hnow hover, fun _ _ hnow => ?_⟩
  · rw [hdrive]
    exact closeAll_world _
  · rw [hdrive]
    exact hstale
  · rw [hdrive]
    exact ⟨hstate, hconfiguration hnow ▸ herror⟩

/-! ### Ownership -/

theorem run_append (env : Env E ω) (r : Runtime E ω) (inputs more : List Input) :
    run env r (inputs ++ more) = run env (run env r inputs) more := List.foldl_append

theorem Reachable.agreed {env : Env E ω} {r : Runtime E ω} (h : Reachable env r) :
    Agreed r.context.ledger := by
  have hagreed : both (Recorded Agreed) r.view :=
    h.invariant (tracked_agreed env).steady.rules fun hs _ hmax =>
      ⟨hs.basic hmax, fun c hc => by simp [freshView, hc], fun _ _ hslot => (by cases hslot),
        fun _ _ hslot => (by cases hslot)⟩
  exact hagreed.2

/-- A token that a runtime returns is one it gave out, for a node. -/
theorem interest_known {env : Env E ω} {r : Runtime E ω} (h : Reachable env r) {interest : Interest}
    (hmem : interest ∈ r.interests) :
    interest.token.generation ≤ r.context.generation ∧
      ∃ node, interest.token.endpoint.slot = .ok node := by
  have hserial : SerialKnown r.view := h.invariant (serialKnown_rules env) fun hs hendpoint hmax =>
    ⟨hs.basic hmax, fun token htoken => by cases htoken; exact ⟨hendpoint, Nat.le_refl _⟩⟩
  have hagreed := h.agreed
  rcases List.mem_append.mp hmem with hline | hchannel
  · obtain ⟨token, htoken, hinterest⟩ := List.mem_filterMap.mp hline
    split at hinterest
    · cases hinterest
      obtain ⟨hendpoint, hknown⟩ := hserial.token token (Option.mem_toList.mp htoken)
      refine ⟨hknown, 0, ?_⟩
      rw [hendpoint]
      rfl
    · cases hinterest
  · split at hchannel
    · obtain ⟨c, hc, hinterest⟩ := List.mem_filterMap.mp hchannel
      have hne : c ≠ 0 := (by decide : ∀ c ∈ dataChannels, c ≠ 0) c hc
      unfold channelInterest at hinterest
      split at hinterest
      · cases hinterest
      · obtain ⟨slot, hslot, hinterest⟩ := Option.bind_eq_some_iff.mp hinterest
        split at hinterest
        · cases hinterest
          refine ⟨hagreed.known c slot hslot, c, ?_⟩
          rw [hagreed.endpoint c slot hslot]
          exact slot_number hne
        · cases hinterest
    · cases hchannel

/-- **Ownership of endpoints.** In every reachable state session, slots and epochs agree
on every channel. A token returned before its endpoint was closed, recreated or, for the
serial line, switched to the multiplexer is never current again; an event that carries it
is at most counted, unless the list is longer than any poll can return, which is refused
as a whole. -/
theorem endpoint_ownership (env : Env E ω) {r : Runtime E ω} (h : Reachable env r) :
    (∀ c : Dlci, c ≠ 0 →
      ((r.session.channels c).endpointPresent = true ↔ (r.context.slots c).isSome = true) ∧
      r.context.epochs.entries c = (r.context.slots c).map (·.token) ∧
      ∀ slot, r.context.slots c = some slot → r.context.epochs.isCurrent slot.token = true) ∧
    ∀ interest ∈ r.interests, ∃ node, interest.token.endpoint.slot = .ok node ∧
      ∀ inputs, Mark.closed node ∈
          (run env r inputs).context.history.drop r.context.history.length →
        ∀ more, (run env r (inputs ++ more)).context.epochs.isCurrent interest.token = false ∧
          ∀ now limits before event behind, event.token = interest.token →
            (before.length + behind.length + 1 ≤ maxChannels + 1 →
              AtMostCounted env (run env r (inputs ++ more)) now limits before event behind) ∧
            (before.length + behind.length + 1 > maxChannels + 1 →
              Refused env (run env r (inputs ++ more)) now (before ++ event :: behind) limits) := by
  refine ⟨fun c hc => ⟨?_, h.agreed.tokens c hc, fun slot hslot => ?_⟩, ?_⟩
  · have hflags : (r.session.channels c).endpointPresent = (r.context.slots c).isSome :=
      congrArg Prod.fst (congrFun h.owned.2.endpoints c)
    rw [hflags]
  · have hentry : r.context.epochs.entries c = some slot.token := by
      have htokens : r.context.epochs.entries c = (r.context.slots c).map (·.token) :=
        h.agreed.tokens c hc
      rw [htokens, hslot]
      rfl
    refine isCurrent_iff.mpr ⟨c, ?_, hentry⟩
    rw [h.agreed.endpoint c slot hslot]
    exact slot_number hc
  · intro interest hmem
    obtain ⟨hknown, node, hnode⟩ := interest_known h hmem
    refine ⟨node, hnode, fun inputs hclosed more => ?_⟩
    -- up to the mark the token may be current, behind it is not
    have hfollowed : both (Recorded (Untouched interest.token True r.context.history.length))
        (run env r inputs).view :=
      (tracked_untouched env _ _ _).steady.rules.run
        ⟨h.owned.1, hknown, fun _ _ _ => ⟨trivial, by simp [view, Context.ledger]⟩⟩ inputs
    have hretired : Retired interest.token (run env r inputs).context.ledger := by
      refine ⟨hfollowed.2.known, Bool.eq_false_iff.mpr fun hcurrent => ?_⟩
      obtain ⟨node', hnode', hentry⟩ := isCurrent_iff.mp hcurrent
      rw [hnode] at hnode'
      cases hnode'
      exact (hfollowed.2.current node hnode hentry).2 hclosed
    have hlater : both (Recorded (Retired interest.token)) (run env (run env r inputs) more).view :=
      (tracked_retired env _).steady.rules.run ⟨(h.run inputs).owned.1, hretired⟩ more
    rw [run_append]
    refine ⟨hlater.2.2, fun now limits before event behind hevent => ⟨fun hlength => ?_, fun hlength => ?_⟩⟩
    · refine drive_insert env ?_ hlength now limits
      rw [hevent]
      exact hlater
    · refine drive_oversized env _ ?_ now limits
      simp only [List.length_append, List.length_cons]
      omega

/-- The token of the serial line with which the scripted dialogue starts. -/
def chatToken : PollToken := ⟨.serial, 0, 1⟩

/-- It is returned, and taken back with the change to the multiplexer. -/
theorem dialogue_retires :
    ∃ r, scriptedStart ⟨scriptedAnswers [], []⟩ = some r ∧
      (∃ interest ∈ r.interests, interest.token = chatToken) ∧
      Mark.closed 0 ∈ (run scripted r dialogue).context.history.drop r.context.history.length := by
  have hruns : (scriptedStart ⟨scriptedAnswers [], []⟩).any (fun r =>
      decide (∃ interest ∈ r.interests, interest.token = chatToken) &&
        decide (Mark.closed 0 ∈
          (run scripted r dialogue).context.history.drop r.context.history.length)) = true := by
    decide +kernel
  obtain ⟨r, hstart, hr⟩ := (Option.any_eq_true _ _).mp hruns
  rw [Bool.and_eq_true, decide_eq_true_eq, decide_eq_true_eq] at hr
  exact ⟨r, hstart, hr⟩

/-- The token is stale behind the dialogue, and 48 events that carry it are refused. -/
theorem endpoint_ownership_dialogue :
    ∃ r, scriptedStart ⟨scriptedAnswers [], []⟩ = some r ∧
      (run scripted r (dialogue ++ [])).context.epochs.isCurrent chatToken = false ∧
      Refused scripted (run scripted r (dialogue ++ [])) 20000
        ([] ++ serialEvent 1 :: List.replicate 47 (serialEvent 1)) scriptedLimits := by
  obtain ⟨r, hstart, ⟨interest, hmem, htoken⟩, hclosed⟩ := dialogue_retires
  obtain ⟨node, hnode, hretired⟩ :=
    (endpoint_ownership scripted (scriptedStart_reachable hstart)).2 interest hmem
  rw [htoken] at hnode
  cases hnode
  obtain ⟨hstale, hevents⟩ := hretired dialogue hclosed []
  exact ⟨r, hstart, htoken ▸ hstale,
    (hevents 20000 scriptedLimits [] (serialEvent 1) _ (htoken ▸ rfl)).2 (by decide)⟩

/-- **A stale event is not always only counted.** Behind the dialogue, 47 events with the
token it took back are counted; a 48th makes the list longer than the nodes, and the
runtime fails with nothing counted. -/
theorem stale_events_refused :
    ∃ r, scriptedStart ⟨scriptedAnswers [], []⟩ = some r ∧
      (∃ interest ∈ r.interests, interest.token = chatToken) ∧
      Mark.closed 0 ∈ (run scripted r dialogue).context.history.drop r.context.history.length ∧
      let later := run scripted r dialogue
      let fewer := drive scripted later 20000 (List.replicate 47 (serialEvent 1)) scriptedLimits
      let more := drive scripted later 20000 (List.replicate 48 (serialEvent 1)) scriptedLimits
      (fewer.1.state = .multiplexing ∧ fewer.1.staleEvents = 47) ∧
        more.1.state = .failed ∧ more.1.error = some .configuration ∧ more.1.staleEvents = 0 := by
  have hruns : (scriptedStart ⟨scriptedAnswers [], []⟩).any (fun r =>
      decide ((∃ interest ∈ r.interests, interest.token = chatToken) ∧
        Mark.closed 0 ∈ (run scripted r dialogue).context.history.drop r.context.history.length ∧
        let later := run scripted r dialogue
        let fewer := drive scripted later 20000 (List.replicate 47 (serialEvent 1)) scriptedLimits
        let more := drive scripted later 20000 (List.replicate 48 (serialEvent 1)) scriptedLimits
        (fewer.1.state = .multiplexing ∧ fewer.1.staleEvents = 47) ∧
          more.1.state = .failed ∧ more.1.error = some .configuration ∧
            more.1.staleEvents = 0)) = true := by
    decide +kernel
  obtain ⟨r, hstart, hr⟩ := (Option.any_eq_true _ _).mp hruns
  exact ⟨r, hstart, of_decide_eq_true hr⟩

end Mindone.Mux.Runtime
