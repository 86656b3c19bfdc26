import Mindone.Radio.At.EngineMoves

/-!
# Mindone.Radio.At.EngineLedger

**Every command is answered exactly once.** An identifier that `enqueue` returned is in the
queue, or it is the active one, or it has been completed, and in one of these places only.
A command is active exactly while it is written or its answer is read, and write tokens
exist exactly while something is written.
-/

namespace Mindone.Radio.At

open Mindone.Lib Engine

/-- The identifiers of the commands that were completed. -/
def completedIds (events : List Event) : List Nat :=
  events.filterMap fun event =>
    match event with
    | .completed response => some response.id
    | _ => none

/-- The commands that were offered for writing. -/
def startedIds (history : List Note) : List Nat :=
  history.filterMap fun mark =>
    match mark with
    | .started id => some id
    | _ => none

def ids (commands : List Pending) : List Nat := commands.map fun pending => pending.id

@[simp] theorem completedIds_append (events more : List Event) :
    completedIds (events ++ more) = completedIds events ++ completedIds more :=
  List.filterMap_append ..

@[simp] theorem startedIds_append (history more : List Note) :
    startedIds (history ++ more) = startedIds history ++ startedIds more :=
  List.filterMap_append ..

@[simp] theorem completedIds_complete (commands : List Pending)
    (result : Except Error (List UInt8)) :
    completedIds (commands.map fun pending => complete pending result) = ids commands := by
  induction commands with
  | nil => rfl
  | cons pending commands ih =>
      show pending.id :: completedIds _ = pending.id :: ids commands
      rw [ih]

/-- Where the identifiers are. -/
def Engine.held (e : Engine) : List Nat :=
  ids e.queue ++ ids e.active.toList ++ completedIds e.emitted

/-- What is written. -/
def Engine.offer (e : Engine) : List UInt8 :=
  match e.active with
  | some pending => pending.command.text ++ [0x0d]
  | none => probeText ++ [0x0d]

/-- **The books of an engine.** -/
structure Balanced (e : Engine) : Prop where
  held : e.held.Perm (List.range' 1 e.nextId)
  active : e.active.isSome ↔ e.phase = .writing ∨ e.phase = .reading
  token : e.token.isSome ↔ e.phase = .writing ∨ e.phase = .quarantine .writing
  offered : e.token.isSome → e.transmit = e.offer ∧ e.accepted < e.transmit.length
  order : (startedIds e.history ++ ids e.queue).Pairwise (· < ·)
  known : ∀ id ∈ startedIds e.history ++ ids e.queue, id ≤ e.nextId
  failed : e.phase = .failed → e.queue = []

/-- The books do not depend on the rest of the engine. -/
theorem Balanced.of_same {e e' : Engine} (h : Balanced e) (hphase : e'.phase = e.phase)
    (hqueue : e'.queue = e.queue)
    (hactive : e'.active.map (fun pending => (pending.id, pending.command)) =
      e.active.map fun pending => (pending.id, pending.command))
    (hwrite : e'.token = e.token ∧ e'.transmit = e.transmit ∧ e'.accepted = e.accepted)
    (hnextId : e'.nextId = e.nextId) (hemitted : completedIds e'.emitted = completedIds e.emitted)
    (hhistory : startedIds e'.history = startedIds e.history) : Balanced e' := by
  obtain ⟨htoken, htransmit, haccepted⟩ := hwrite
  have hsome : e'.active.isSome = e.active.isSome := by
    simpa using congrArg Option.isSome hactive
  have hids : ids e'.active.toList = ids e.active.toList := by
    cases hnew : e'.active <;> cases hold : e.active <;> simp_all [ids]
  have hoffer : e'.offer = e.offer := by
    unfold Engine.offer
    cases hnew : e'.active <;> cases hold : e.active <;> simp_all
  refine ⟨?_, ?_, ?_, ?_, ?_, ?_, ?_⟩
  · unfold Engine.held
    rw [hqueue, hids, hemitted, hnextId]
    exact h.held
  · rw [hsome, hphase]
    exact h.active
  · rw [htoken, hphase]
    exact h.token
  · rw [htoken, htransmit, haccepted, hoffer]
    exact h.offered
  · rw [hhistory, hqueue]
    exact h.order
  · rw [hhistory, hqueue, hnextId]
    exact h.known
  · rw [hphase, hqueue]
    exact h.failed

/-! ### What each move keeps -/

/-- The active command is completed. -/
theorem held_completed (queue active completed : List Nat) :
    (queue ++ [] ++ (completed ++ active)).Perm (queue ++ active ++ completed) := by
  rw [List.append_nil, List.append_assoc]
  exact List.Perm.append_left queue List.perm_append_comm

/-- In quarantine nothing is active and nothing is written. -/
theorem balanced_enter {e : Engine} (h : Balanced e) (now : Nat) (error : Error) :
    Balanced (e.enter now error) := by
  refine ⟨?_, by simp, by simp, by simp, ?_, ?_, by simp⟩
  · unfold Engine.held
    simp only [enter_queue, enter_active, enter_emitted, enter_nextId, completedIds_append,
      completedIds_complete]
    refine List.Perm.trans ?_ h.held
    show (ids e.queue ++ [] ++ (completedIds e.emitted ++ ids e.active.toList ++ [])).Perm e.held
    rw [List.append_nil (completedIds e.emitted ++ ids e.active.toList)]
    exact held_completed _ _ _
  · simpa [startedIds] using h.order
  · simpa [startedIds] using h.known

theorem Aborted.balanced {e e' : Engine} {error : Error} {all : List Pending}
    (h : Aborted e e' error all) (hall : (ids all).Perm (ids e.queue ++ ids e.active.toList))
    (hc : Balanced e) : Balanced e' := by
  have hsub : List.Sublist (startedIds e'.history ++ ids e'.queue)
      (startedIds e.history ++ ids e.queue) := by
    rw [h.history, h.queue]
    exact List.Sublist.append (List.Sublist.refl _) (List.nil_sublist _)
  refine ⟨?_, by simp [h.active, h.phase], by simp [h.token, h.phase], by simp [h.token], ?_, ?_,
    fun _ => h.queue⟩
  · unfold Engine.held
    rw [h.queue, h.active, h.emitted, h.nextId]
    refine List.Perm.trans ?_ hc.held
    simp only [completedIds_append, completedIds_complete]
    show (completedIds e.emitted ++ ids all ++ []).Perm _
    rw [List.append_nil]
    exact List.perm_append_comm.trans (List.Perm.append_right _ hall)
  · exact hc.order.sublist hsub
  · intro id hid
    rw [h.nextId]
    exact hc.known id (hsub.subset hid)

/-- What expires in the queue is completed with an error. -/
theorem balanced_expireQueue {e : Engine} (h : Balanced e) (now : Nat) :
    Balanced (e.expireQueue now) := by
  have hsplit : (ids (e.queue.filter fun pending => now < pending.command.deadline) ++
      ids (e.queue.filter fun pending => pending.command.deadline ≤ now)).Perm (ids e.queue) := by
    unfold ids
    rw [← List.map_append]
    refine List.Perm.map _ ?_
    have hlate : (fun pending : Pending => decide (pending.command.deadline ≤ now)) =
        fun pending => !decide (now < pending.command.deadline) := by
      funext pending
      by_cases hlate : now < pending.command.deadline
      · simp [hlate]
      · simp [Nat.le_of_not_lt hlate]
    rw [hlate]
    exact List.filter_append_perm ..
  have hsub : List.Sublist (startedIds (e.expireQueue now).history ++ ids (e.expireQueue now).queue)
      (startedIds e.history ++ ids e.queue) :=
    List.Sublist.append (List.Sublist.refl _) (List.filter_sublist.map _)
  refine ⟨?_, h.active, h.token, h.offered, h.order.sublist hsub,
    fun id hid => h.known id (hsub.subset hid), ?_⟩
  · refine List.Perm.trans ?_ h.held
    unfold Engine.held expireQueue
    simp only [completedIds_append, completedIds_complete]
    rw [List.perm_iff_count]
    intro id
    have hcount := hsplit.count_eq id
    simp only [List.count_append] at hcount ⊢
    omega
  · intro hfailed
    simp [expireQueue, h.failed hfailed]

theorem Balanced.inactive {e : Engine} (h : Balanced e) (hwriting : e.phase ≠ .writing)
    (hreading : e.phase ≠ .reading) : e.active = none := by
  by_contra hsome
  rcases h.active.mp (Option.isSome_iff_ne_none.mpr hsome) with hphase | hphase
  · exact hwriting hphase
  · exact hreading hphase

theorem balanced_probing {e : Engine} (h : Balanced e) (now : Nat)
    (hphase : e.phase = .quarantine .silence) : Balanced (e.probing now) := by
  have hnone : e.active = none := h.inactive (by simp [hphase]) (by simp [hphase])
  refine ⟨h.held, ?_, ?_, ?_, ?_, ?_, ?_⟩
  · simp [probing, note, hnone]
  · simp [probing]
  · intro _
    simp [Engine.offer, probing, note, hnone]
  · simpa [probing, note, startedIds] using h.order
  · simpa [probing, note, startedIds] using h.known
  · simp [probing]

/-- A command of the queue becomes the active one. -/
theorem balanced_starting {e : Engine} (h : Balanced e) (pending : Pending)
    (queue : List Pending) (hphase : e.phase = .idle) (hqueue : e.queue = pending :: queue) :
    Balanced (e.starting pending queue) := by
  have hnone : e.active = none := h.inactive (by simp [hphase]) (by simp [hphase])
  have hmoved : startedIds (e.starting pending queue).history ++ ids (e.starting pending queue).queue =
      startedIds e.history ++ ids e.queue := by
    rw [hqueue]
    simp [starting, note, startedIds, ids]
  refine ⟨?_, ?_, ?_, ?_, ?_, ?_, ?_⟩
  · refine List.Perm.trans ?_ h.held
    unfold Engine.held
    rw [hqueue, hnone]
    simp only [starting, note, ids, Option.toList_some, Option.toList_none, List.map_cons,
      List.map_nil, List.append_nil, List.cons_append]
    exact List.perm_append_singleton .. |>.append_right _
  · simp [starting]
  · simp [starting]
  · intro _
    simp [Engine.offer, starting]
  · rw [hmoved]
    exact h.order
  · rw [hmoved]
    exact h.known
  · simp [starting]

theorem balanced_completed {e : Engine} (h : Balanced e) (pending : Pending)
    (line : List UInt8) (hphase : e.phase = .reading) (hactive : e.active = some pending) :
    Balanced ({ e with active := none, phase := .idle }.emit (complete pending (.ok line))) := by
  refine ⟨?_, by simp [emit], ?_, ?_, h.order, h.known, by simp [emit]⟩
  · refine List.Perm.trans ?_ h.held
    unfold Engine.held
    rw [hactive]
    simp only [emit, completedIds_append]
    exact held_completed (ids e.queue) [pending.id] (completedIds e.emitted)
  · have hnone : ¬ e.token.isSome := fun hsome => by simpa [hphase] using h.token.mp hsome
    simp [emit, Option.not_isSome_iff_eq_none.mp hnone]
  · intro hsome
    exact absurd (h.token.mp hsome) (by simp [hphase])

/-- Where nothing is written and nothing is active, the phase may change. -/
theorem Balanced.of_quiet {e e' : Engine} (h : Balanced e) (hnone : e'.active = none)
    (hactive : e.active = none) (htoken : e'.token = none)
    (hphase : e'.phase = .idle ∨ e'.phase = .quarantine .silence ∨ e'.phase = .quarantine .reading)
    (hqueue : e'.queue = e.queue) (hnextId : e'.nextId = e.nextId)
    (hemitted : completedIds e'.emitted = completedIds e.emitted)
    (hhistory : startedIds e'.history = startedIds e.history) : Balanced e' := by
  refine ⟨?_, ?_, ?_, by simp [htoken], ?_, ?_, ?_⟩
  · unfold Engine.held
    rw [hqueue, hnone, hemitted, hnextId, ← hactive]
    exact h.held
  · rcases hphase with hp | hp | hp <;> simp [hnone, hp]
  · rcases hphase with hp | hp | hp <;> simp [htoken, hp]
  · rw [hhistory, hqueue]
    exact h.order
  · rw [hhistory, hqueue, hnextId]
    exact h.known
  · rcases hphase with hp | hp | hp <;> simp [hp]

theorem not_active_of_quarantined {e : Engine} (h : Balanced e) (hin : e.isQuarantined = true) :
    e.active = none := by
  unfold isQuarantined at hin
  split at hin
  · rename_i part hphase
    exact h.inactive (by simp [hphase]) (by simp [hphase])
  · cases hin

/-- **Every move keeps the books balanced.** -/
theorem Move.balanced {strict : Bool} {e e' : Engine} (hmove : Move strict e e')
    (h : Balanced e) : Balanced e' := by
  cases hmove with
  -- Most moves touch none of the fields the books are about.
  | clocked now _ _ => exact h.of_same rfl rfl rfl ⟨rfl, rfl, rfl⟩ rfl rfl rfl
  | entered now error _ _ _ => exact balanced_enter h now error
  | oversized now _ _ _ =>
      refine balanced_enter ?_ now .lineTooLarge
      exact h.of_same rfl rfl rfl ⟨rfl, rfl, rfl⟩ rfl rfl (by simp [note, startedIds])
  | expired now => exact balanced_expireQueue h now
  | aborted error _ haborted =>
      refine haborted.balanced ?_ h
      simpa [ids] using List.perm_append_comm
  -- The identifiers run out before a command has become the active one.
  | exhausted pending queue hphase hqueue haborted =>
      have hnone : e.active = none := h.inactive (by simp [hphase]) (by simp [hphase])
      refine haborted.balanced ?_ h
      rw [hqueue, hnone]
      simp [ids]
  | tokensTaken count => exact h.of_same rfl rfl rfl ⟨rfl, rfl, rfl⟩ rfl rfl rfl
  | part bytes htoken hroom =>
      exact ⟨h.held, h.active, h.token, fun hsome => ⟨(h.offered hsome).1, hroom⟩, h.order,
        h.known, h.failed⟩
  -- The command has been offered whole: its token is given back and it is waited for.
  | whole hphase =>
      have hsome : e.active.isSome := h.active.mpr (.inl hphase)
      exact ⟨h.held, by simpa [clearWrite] using hsome, by simp [clearWrite],
        by simp [clearWrite], h.order, h.known, by simp⟩
  | probeWhole hphase =>
      have hnone : e.active = none := h.inactive (by simp [hphase]) (by simp [hphase])
      exact h.of_quiet hnone hnone rfl (.inr (.inr rfl)) rfl rfl rfl
        (by simp [note, clearWrite, startedIds])
  | heard now byte _ _ =>
      refine h.of_same rfl rfl ?_ ⟨rfl, rfl, rfl⟩ rfl rfl (by simp [hear, note, startedIds])
      simp [hear, Function.comp_def]
  | framed framer => exact h.of_same rfl rfl rfl ⟨rfl, rfl, rfl⟩ rfl rfl rfl
  | urc line _ =>
      exact h.of_same rfl rfl rfl ⟨rfl, rfl, rfl⟩ rfl (by simp [Engine.urc, emit, completedIds]) rfl
  | passed line _ _ _ =>
      exact h.of_same rfl rfl rfl ⟨rfl, rfl, rfl⟩ rfl rfl (by simp [note, startedIds])
  | answered line _ _ _ =>
      exact h.of_same rfl rfl rfl ⟨rfl, rfl, rfl⟩ rfl rfl (by simp [note, startedIds])
  | silenced now line hin _ _ _ =>
      have hnone := not_active_of_quarantined h hin
      exact h.of_quiet hnone hnone rfl (.inr (.inl rfl)) rfl rfl rfl
        (by simp [note, clearWrite, startedIds])
  -- The probe was the engine's own: no command is active, none is answered.
  | resynchronized hphase _ =>
      have hnone : e.active = none := h.inactive (by simp [hphase]) (by simp [hphase])
      have htoken : e.token = none := by
        by_contra hsome
        exact absurd (h.token.mp (Option.isSome_iff_ne_none.mpr hsome)) (by simp [hphase])
      exact h.of_quiet hnone hnone htoken (.inl rfl) rfl rfl
        (by simp [note, emit, completedIds]) (by simp [note, emit, startedIds])
  | completed pending line hphase hactive => exact balanced_completed h pending line hphase hactive
  | intermediate pending line _ hactive =>
      exact h.of_same rfl rfl (by simp [hactive]) ⟨rfl, rfl, rfl⟩ rfl rfl rfl

theorem Offer.balanced {now : Nat} {e e' : Engine} (hoffer : Offer now e e') (h : Balanced e) :
    Balanced e' := by
  cases hoffer with
  | probing hphase _ _ _ => exact balanced_probing h now hphase
  | starting pending queue hphase _ hqueue => exact balanced_starting h pending queue hphase hqueue

/-- A command is queued under a new number. -/
theorem balanced_enqueued {e : Engine} (h : Balanced e) (command : Command)
    (halive : e.phase ≠ .failed) : Balanced (e.enqueued command) := by
  refine ⟨?_, h.active, h.token, h.offered, ?_, ?_, fun hfailed => absurd hfailed halive⟩
  · unfold Engine.held enqueued
    dsimp only
    rw [List.range'_1_concat]
    refine List.Perm.trans ?_ (h.held.append_right [e.nextId + 1] |>.trans (by rw [Nat.add_comm]))
    unfold Engine.held
    rw [List.perm_iff_count]
    intro id
    simp only [ids, List.map_append, List.map_cons, List.map_nil, List.count_append]
    omega
  · simp only [enqueued, ids, List.map_append, List.map_cons, List.map_nil, ← List.append_assoc]
    refine List.pairwise_append.mpr ⟨h.order, List.pairwise_singleton .., ?_⟩
    intro id hid last hlast
    rw [List.mem_singleton.mp hlast]
    exact Nat.lt_succ_of_le (h.known id hid)
  · intro id hid
    simp only [enqueued, ids, List.map_append, List.map_cons, List.map_nil, ← List.append_assoc,
      List.mem_append, List.mem_singleton] at hid ⊢
    rcases hid with hold | rfl
    · exact Nat.le_succ_of_le (h.known id (List.mem_append.mpr hold))
    · exact Nat.le_refl _

theorem RunWith.balanced {ok : Engine → Call → Prop} {issued : List Nat} {e : Engine}
    (h : RunWith ok issued e) : Balanced e := by
  refine h.invariant false (by simp) ?_ (fun _ _ hmove => hmove.balanced)
    (fun _ _ _ hoffer => hoffer.balanced) fun e command halive h => balanced_enqueued h command halive
  intro now prefixes nextWrite e hnew
  unfold Engine.new at hnew
  split at hnew
  · cases hnew
  cases hnew
  exact ⟨.refl _, by simp, by simp, by simp, .nil, by simp [startedIds, ids], by simp⟩

theorem after_balanced {e : Engine} (h : Balanced e) (call : Call) : Balanced (e.after call) := by
  rcases after_moves false e call (by simp) with
    ⟨⟨e', hmoves, hend⟩, -⟩ | ⟨command, -, halive, -, heq⟩
  · have he' : Balanced e' := invariant_of_steps (fun _ _ hmove => hmove.balanced) hmoves h
    rcases hend with heq | ⟨now, -, hoffer⟩
    · rw [heq]
      exact he'
    · exact hoffer.balanced he'
  · rw [heq]
    exact balanced_enqueued h command halive

/-! ### Runs -/

theorem Move.nextId {strict : Bool} {e e' : Engine} (h : Move strict e e') :
    e'.nextId = e.nextId := by
  cases h with
  | entered now error _ _ _ => exact enter_nextId ..
  | oversized now _ _ _ => exact enter_nextId ..
  | aborted error _ haborted => exact haborted.nextId
  | exhausted pending queue _ _ haborted => exact haborted.nextId
  | _ => rfl

theorem Offer.nextId {now : Nat} {e e' : Engine} (h : Offer now e e') : e'.nextId = e.nextId := by
  cases h with
  | probing _ _ _ _ => rfl
  | starting _ _ _ _ _ => rfl

/-- The numbers are given out one after the other. -/
theorem RunWith.issued_eq {ok : Engine → Call → Prop} {issued : List Nat} {e : Engine}
    (h : RunWith ok issued e) : issued = List.range' 1 e.nextId := by
  induction h with
  | new h =>
      unfold Engine.new at h
      split at h
      · cases h
      · cases h
        rfl
  | @call _ e _ call _ ih =>
      rcases after_moves false e call (by simp) with
        ⟨⟨e', hmoves, hend⟩, hnone⟩ | ⟨command, -, -, hone, heq⟩
      · have hmoved : e'.nextId = e.nextId :=
          invariant_of_steps (I := fun e' => e'.nextId = e.nextId)
            (fun _ _ hmove hsame => hmove.nextId.trans hsame) hmoves rfl
        have hnextId : (e.after call).nextId = e.nextId := by
          rcases hend with heq | ⟨now, -, hoffer⟩
          · rw [heq, hmoved]
          · rw [hoffer.nextId, hmoved]
        rw [hnone, hnextId, List.append_nil, ih]
      · rw [hone, heq, ih]
        show _ = List.range' 1 (e.nextId + 1)
        rw [List.range'_1_concat, Nat.add_comm 1]

/-- An engine that has failed does nothing any more. -/
theorem after_failed {e : Engine} (h : e.phase = .failed) (call : Call) :
    (e.after call).emitted = e.emitted := by
  have hclock : ∀ {α : Type} (now : Nat) (rest : Unit → Step α),
      endState ((clock now >>= rest) e) = e := by
    intro α now rest
    have hfailed : clock now e = .error .failed e := by
      unfold clock
      rw [run_get_bind, if_pos h]
      rfl
    rw [run_bind_error hfailed]
    rfl
  cases call with
  | enqueue command =>
      have hfailed : enqueue command e = .error .failed e := by
        unfold enqueue
        rw [run_get_bind, if_pos h]
        rfl
      unfold Engine.after Call.run
      rw [endState_bind_pure, hfailed]
      rfl
  | tick now => exact congrArg Engine.emitted (hclock now _)
  | feed now input => exact congrArg Engine.emitted (hclock now _)
  | acceptWritten now token bytes => exact congrArg Engine.emitted (hclock now _)
  | tokensTaken count => rfl

/-- What is still to be accepted: the end of the command's line, or of the probe's. -/
theorem Balanced.unaccepted {e : Engine} (h : Balanced e) (hsome : e.token.isSome) :
    e.transmit.drop e.accepted ≠ [] ∧
      ((∃ pending, e.phase = .writing ∧ e.active = some pending ∧
        e.transmit.drop e.accepted <:+ pending.command.text ++ [0x0d]) ∨
        e.phase = .quarantine .writing ∧
          e.transmit.drop e.accepted <:+ probeText ++ [0x0d]) := by
  obtain ⟨htransmit, haccepted⟩ := h.offered hsome
  refine ⟨?_, ?_⟩
  · intro hnil
    have hlength := congrArg List.length hnil
    simp only [List.length_drop, List.length_nil] at hlength
    omega
  have hsuffix : e.transmit.drop e.accepted <:+ e.offer := htransmit ▸ List.drop_suffix ..
  rcases h.token.mp hsome with hphase | hphase
  · obtain ⟨pending, hactive⟩ := Option.isSome_iff_exists.mp (h.active.mpr (.inl hphase))
    refine .inl ⟨pending, hphase, hactive, ?_⟩
    simpa [Engine.offer, hactive] using hsuffix
  · have hnone := h.inactive (by simp [hphase]) (by simp [hphase])
    refine .inr ⟨hphase, ?_⟩
    simpa [Engine.offer, hnone] using hsuffix

theorem Balanced.pendingWrite {e : Engine} (h : Balanced e) {request : WriteRequest}
    (hrequest : e.pendingWrite = some request) :
    request.bytes ≠ [] ∧
      ((∃ pending, e.phase = .writing ∧ e.active = some pending ∧
        request.bytes <:+ pending.command.text ++ [0x0d]) ∨
        e.phase = .quarantine .writing ∧ request.bytes <:+ probeText ++ [0x0d]) := by
  unfold Engine.pendingWrite at hrequest
  obtain ⟨token, htoken, rfl⟩ := Option.map_eq_some_iff.mp hrequest
  exact h.unaccepted (by simp [htoken])

/-- **Each command is completed exactly once.** The identifiers that `enqueue` returned are
spread over the queue, the active slot and the completed commands, each in one place. -/
theorem command_ledger {issued : List Nat} {e : Engine} (h : Run issued e) :
    issued.Nodup ∧
    (ids e.queue ++ ids e.active.toList ++ completedIds e.emitted).Perm issued ∧
    (e.active.isSome ↔ e.phase = .writing ∨ e.phase = .reading) ∧
    (e.token.isSome ↔ e.phase = .writing ∨ e.phase = .quarantine .writing) ∧
    (e.token.isSome → e.transmit.drop e.accepted ≠ [] ∧
      ((∃ pending, e.phase = .writing ∧ e.active = some pending ∧
        e.transmit.drop e.accepted <:+ pending.command.text ++ [0x0d]) ∨
        e.phase = .quarantine .writing ∧
          e.transmit.drop e.accepted <:+ probeText ++ [0x0d])) ∧
    (∀ request, e.pendingWrite = some request → request.bytes ≠ [] ∧
      ((∃ pending, e.phase = .writing ∧ e.active = some pending ∧
        request.bytes <:+ pending.command.text ++ [0x0d]) ∨
        e.phase = .quarantine .writing ∧ request.bytes <:+ probeText ++ [0x0d])) ∧
    (startedIds e.history).Pairwise (· < ·) ∧
    (e.phase = .failed → e.queue = [] ∧ e.active = none ∧
      ∀ call, (e.after call).emitted = e.emitted) := by
  have hbalanced := h.balanced
  have hissued := h.issued_eq
  refine ⟨?_, ?_, hbalanced.active, hbalanced.token, hbalanced.unaccepted,
    fun _ => hbalanced.pendingWrite, ?_, ?_⟩
  · rw [hissued]
    exact List.nodup_range' ..
  · rw [hissued]
    exact hbalanced.held
  · exact (List.pairwise_append.mp hbalanced.order).1
  · intro hfailed
    exact ⟨hbalanced.failed hfailed, hbalanced.inactive (by simp [hfailed]) (by simp [hfailed]),
      after_failed hfailed⟩

/-- A query of the registration state. -/
def sampleCommand (deadline : Nat) : Command where
  text := ascii ['A', 'T', '+', 'E', 'R', 'E', 'G', '?']
  expectedPrefix := some (ascii ['+', 'E', 'R', 'E', 'G', ':'])
  extraFinals := []
  maxLines := 16
  deadline
  text_valid := by decide
  text_at := by decide
  prefix_valid := by decide
  finals_valid := by simp

/-- Three commands: the first is answered, the second waits too long, the third is written. -/
def ledgerScript : List Call :=
  [.enqueue (sampleCommand 5000), .enqueue (sampleCommand 10), .tick 0, .acceptWritten 1 1 9,
    .feed 2 (okText ++ [0x0d]), .enqueue (sampleCommand 5000), .tick 20, .acceptWritten 20 2 3]

theorem command_ledger_scripted :
    ∃ issued e, Run issued e ∧ issued = [1, 2, 3] ∧ completedIds e.emitted = [1, 2] ∧
      e.phase = .writing ∧
      (ids e.queue ++ ids e.active.toList ++ completedIds e.emitted).Perm issued ∧
      e.transmit.drop e.accepted ≠ [] := by
  obtain ⟨issued, e, hrun, hissued, hcompleted, hphase⟩ :=
    RunWith.of_script (fun _ _ => True) ledgerScript
      (fun issued e => issued = [1, 2, 3] ∧ completedIds e.emitted = [1, 2] ∧ e.phase = .writing)
      (by decide +kernel)
  obtain ⟨-, hheld, -, htoken, hunaccepted, -⟩ := command_ledger hrun
  exact ⟨issued, e, hrun, hissued, hcompleted, hphase, hheld,
    (hunaccepted (htoken.mpr (.inl hphase))).1⟩

end Mindone.Radio.At
