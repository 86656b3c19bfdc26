import Mindone.Wfca.Relay

/-!
# Mindone.Wfca.RelayLaws

**There is one data thread at most, and what it pops is what was pushed**, in order, less what met a
full queue. While the gate is open the thread runs with no stop request, as long as the gate is never
opened again under a request that the thread has not seen yet: the gate then finds the thread
running and leaves the request standing, and the thread ends behind the open gate (`late`).
-/

namespace Mindone.Wfca

open Lib

/-! ### Records -/

/-- Length, direction and payload of a record. -/
structure IsRecord (dirUplink : UInt8) (payload out : Bytes) : Prop where
  size : out.length = 4 + relayMaxPayload
  direction : out.getD 1 0 = dirUplink <<< 7
  length : (out.getD 2 0).toNat + 256 * (out.getD 3 0).toNat = min payload.length relayMaxPayload
  payload : (out.drop 4).take (min payload.length relayMaxPayload) = payload.take relayMaxPayload

/-- A record is spelt as the daemon reads it. -/
theorem isRecord_record (dirUplink : UInt8) (payload : Bytes) :
    IsRecord dirUplink payload (record dirUplink payload) := by
  obtain ⟨len, hlen⟩ : ∃ len, min payload.length relayMaxPayload = len := ⟨_, rfl⟩
  have hcut : (if payload.length > relayMaxPayload then relayMaxPayload else payload.length) =
      len := by
    rw [← hlen]
    split <;> omega
  have hmax : relayMaxPayload = 640 := rfl
  have hbody : record dirUplink payload = (0 : UInt8) :: dirUplink <<< 7 :: UInt8.ofNat (len % 256) ::
      UInt8.ofNat (len / 256 % 256) ::
        (payload.take len ++ List.replicate (relayMaxPayload - len) 0) := by
    simp only [record, hcut, List.cons_append, List.nil_append]
  have htake : (payload.take len).length = len := List.length_take_of_le (by omega)
  refine ⟨?_, by rw [hbody]; rfl, ?_, ?_⟩
  · rw [hbody]
    simp only [List.length_cons, List.length_append, htake, List.length_replicate]
    omega
  · have hlow : (UInt8.ofNat (len % 256)).toNat = len % 256 := by simp
    have hhigh : (UInt8.ofNat (len / 256 % 256)).toNat = len / 256 % 256 := by simp
    rw [hbody, hlen]
    simp only [List.getD_cons_succ, List.getD_cons_zero, hlow, hhigh]
    omega
  · rw [hbody, hlen]
    simp only [List.drop_succ_cons, List.drop_zero]
    rw [List.take_left' htake, ← hlen]
    rcases Nat.le_total payload.length relayMaxPayload with h | h
    · rw [Nat.min_eq_left h, List.take_of_length_le (Nat.le_refl _), List.take_of_length_le h]
    · rw [Nat.min_eq_right h]

/-! ### Queues -/

/-- What was pushed while there was room. -/
def Lane.accepted (lane : Lane) : List Bytes := (lane.pushed.filter (!·.full)).map (·.payload)

/-- What was popped and what waits are the records of what was accepted, in order. -/
def Lane.Follows (lane : Lane) (dirUplink : UInt8) : Prop :=
  lane.popped ++ lane.queue.contents = lane.accepted.map (record dirUplink)

variable {lane : Lane} {dirUplink : UInt8} {relay relay' : Relay}

theorem Lane.Follows.push (h : lane.Follows dirUplink) (payload : Bytes) :
    (lane.push dirUplink payload).Follows dirUplink := by
  unfold Lane.Follows Lane.accepted at h ⊢
  simp only [Lane.push, relayQueuePush]
  by_cases hroom : lane.queue.count < lane.queue.cap
  · have hfull : decide (lane.queue.count ≥ lane.queue.cap) = false := by simpa using hroom
    rw [dif_pos hroom, Ring.contents_push, ← List.append_assoc, h, hfull]
    simp
  · have hfull : decide (lane.queue.count ≥ lane.queue.cap) = true := by simpa using hroom
    rw [dif_neg hroom, h, hfull]
    simp

theorem Lane.Follows.pop (h : lane.Follows dirUplink) : lane.pop.Follows dirUplink := by
  unfold Lane.pop relayQueuePop
  obtain ⟨hnone, -⟩ | ⟨out, rest, hsome, hcontents, -⟩ := lane.queue.pop_cases
  · rwa [hnone]
  · rw [hsome]
    unfold Lane.Follows Lane.accepted at h ⊢
    rw [hcontents] at h
    simpa using h

/-! ### Threads -/

/-- There is no data thread, or one, which has a request to stop when it closes its socket. -/
def Alone (relay : Relay) : Prop :=
  (relay.threads = [] ∧ relay.dataThreadRunning = false ∧ relay.dataThreadStopReq = false) ∨
    ∃ place, relay.threads = [place] ∧ relay.dataThreadRunning = true ∧
      (place = .closing → relay.dataThreadStopReq = true)

/-- While the gate is open, the data thread runs and is not asked to stop. -/
def Relaying (relay : Relay) : Prop :=
  relay.started = true → relay.incall = true →
    relay.dataThreadRunning = true ∧ relay.dataThreadStopReq = false ∧
      ∃ place, relay.threads = [place]

/-- The command finds the gate open, or opens it, under a request to stop. -/
def late (relay : Relay) (cmd : UInt8) : Bool :=
  relay.dataThreadStopReq && (setGate relay cmd).started && (setGate relay cmd).incall

/-- The switch of a command sets the gate and nothing else. -/
theorem setGate_fields (relay : Relay) (cmd : UInt8) :
    (setGate relay cmd).dataThreadRunning = relay.dataThreadRunning ∧
      (setGate relay cmd).dataThreadStopReq = relay.dataThreadStopReq ∧
      (setGate relay cmd).threads = relay.threads ∧ (setGate relay cmd).ul = relay.ul ∧
      (setGate relay cmd).dl = relay.dl := by
  unfold setGate
  split <;> exact ⟨rfl, rfl, rfl, rfl, rfl⟩

/-- **A command**: the thread stays alone, and relays behind an open gate unless the command is
late. -/
theorem command_alone (h : Alone relay) (cmd : UInt8) (created : Bool) :
    Alone (handleMdmCtrlCmd relay cmd created) ∧
      (handleMdmCtrlCmd relay cmd created).ul = relay.ul ∧
      (handleMdmCtrlCmd relay cmd created).dl = relay.dl ∧
      (created = true →
        (Relaying (handleMdmCtrlCmd relay cmd created) ↔ late relay cmd = false)) := by
  obtain ⟨hrunning, hstop, hthreads, hul, hdl⟩ := setGate_fields relay cmd
  unfold handleMdmCtrlCmd late
  generalize setGate relay cmd = gate at *
  unfold Alone at h
  rw [← hrunning, ← hstop, ← hthreads] at h
  rw [← hstop, ← hul, ← hdl]
  unfold mdmApplyGateLocked
  cases hopen : gate.started && gate.incall with
  | false =>
      -- the gate is closed: a running thread is asked to stop
      have hclosed : gate.started = true → gate.incall = true → False := by
        intro hstarted hincall
        simp [hstarted, hincall] at hopen
      have hlate : (gate.dataThreadStopReq && gate.started && gate.incall) = false := by
        rw [Bool.and_assoc, hopen, Bool.and_false]
      rw [hlate, if_neg (by simp)]
      obtain ⟨hnone, hoff, hno⟩ | ⟨place, hone, hon, hclosing⟩ := h
      · rw [if_neg (by simp [hoff])]
        exact ⟨.inl ⟨hnone, hoff, hno⟩, rfl, rfl,
          fun _ => ⟨fun _ => rfl, fun _ hs hi => (hclosed hs hi).elim⟩⟩
      · rw [if_pos hon]
        exact ⟨.inr ⟨place, hone, hon, fun _ => rfl⟩, rfl, rfl,
          fun _ => ⟨fun _ => rfl, fun _ hs hi => (hclosed hs hi).elim⟩⟩
  | true =>
      obtain ⟨hstarted, hincall⟩ : gate.started = true ∧ gate.incall = true := by simpa using hopen
      have hlate : (gate.dataThreadStopReq && gate.started && gate.incall) =
          gate.dataThreadStopReq := by
        rw [Bool.and_assoc, hopen, Bool.and_true]
      rw [hlate, if_pos rfl]
      obtain ⟨hnone, hoff, hno⟩ | ⟨place, hone, hon, hclosing⟩ := h
      · rw [if_neg (by simp [hoff])]
        cases created with
        | false => exact ⟨.inl ⟨hnone, hoff, rfl⟩, rfl, rfl, nofun⟩
        | true =>
            refine ⟨.inr ⟨.top, by simp [hnone], rfl, nofun⟩, rfl, rfl, fun _ => ?_⟩
            exact ⟨fun _ => hno, fun _ _ _ => ⟨rfl, rfl, .top, by simp [hnone]⟩⟩
      · -- the thread that is there is left as it is, with its request
        rw [if_pos hon]
        refine ⟨.inr ⟨place, hone, hon, hclosing⟩, rfl, rfl, fun _ => ?_⟩
        exact ⟨fun hrelaying => (hrelaying hstarted hincall).2.1,
          fun hno _ _ => ⟨hon, hno, place, hone⟩⟩

/-- What every state keeps. -/
structure Sound (relay : Relay) : Prop where
  alone : Alone relay
  ul : relay.ul.Follows 1
  dl : relay.dl.Follows 0

/-- **A step of the data thread.** -/
theorem thread_step (h : Sound relay) {i : Nat} {connected : Bool}
    (hstep : relay.step (.thread i connected) = some relay') :
    Sound relay' ∧ (Relaying relay → Relaying relay') := by
  obtain ⟨halone, hul, hdl⟩ := h
  -- there is one thread, or none that could step
  obtain ⟨hnone, -, -⟩ | ⟨place, hone, hon, hclosing⟩ := halone
  · simp [Relay.step, hnone] at hstep
  obtain rfl : i = 0 := by
    rcases Nat.eq_zero_or_pos i with hi | hi
    · exact hi
    · simp [Relay.step, hone, List.getElem?_eq_none (show [place].length ≤ i from hi)] at hstep
  -- a thread that goes on keeps relaying
  have hrelaying : ∀ {relay' : Relay} {place' : Place}, relay'.threads = [place'] →
      relay'.started = relay.started → relay'.incall = relay.incall →
      relay'.dataThreadRunning = relay.dataThreadRunning →
      relay'.dataThreadStopReq = relay.dataThreadStopReq →
      Relaying relay → Relaying relay' := by
    intro relay' place' hthreads hstarted hincall hrunning hstop hbefore hs hi
    obtain ⟨hrun, hno, -⟩ := hbefore (hstarted ▸ hs) (hincall ▸ hi)
    exact ⟨hrunning ▸ hrun, hstop ▸ hno, place', hthreads⟩
  -- one that was told to stop was not relaying
  have hended : relay.dataThreadStopReq = true → Relaying relay → ∀ {relay' : Relay},
      relay'.started = relay.started → relay'.incall = relay.incall → Relaying relay' := by
    intro hyes hbefore relay' hstarted hincall hs hi
    have hno := (hbefore (hstarted ▸ hs) (hincall ▸ hi)).2.1
    rw [hyes] at hno
    cases hno
  simp only [Relay.step, hone, List.getElem?_cons_zero] at hstep
  cases place with
  -- the turn begins with a look at the request to stop
  | top =>
      simp only [threadStep] at hstep
      cases hstop : relay.dataThreadStopReq with
      | true =>
          simp only [hstop, if_true, Option.some.injEq] at hstep
          subst hstep
          exact ⟨⟨.inl ⟨by simp [hone], rfl, rfl⟩, hul, hdl⟩, fun hr => hended hstop hr rfl rfl⟩
      | false =>
          simp only [hstop, Bool.false_eq_true, if_false, Option.some.injEq] at hstep
          subst hstep
          exact ⟨⟨.inr ⟨.connecting, by simp [hone], hon, nofun⟩, hul, hdl⟩,
            hrelaying (show _ = [Place.connecting] by simp [hone]) rfl rfl rfl hstop.symm⟩
  | connecting =>
      simp only [threadStep, Option.some.injEq] at hstep
      subst hstep
      refine ⟨⟨.inr ⟨_, by simp [hone]; rfl, hon, ?_⟩, hul, hdl⟩,
        hrelaying (by simp [hone]; rfl) rfl rfl rfl rfl⟩
      cases connected <;> simp
  -- each lane is emptied in its order
  | popUplink =>
      simp only [threadStep, Option.some.injEq] at hstep
      subst hstep
      exact ⟨⟨.inr ⟨.popDownlink, by simp [hone], hon, nofun⟩, hul.pop, hdl⟩,
        hrelaying (show _ = [Place.popDownlink] by simp [hone]) rfl rfl rfl rfl⟩
  | popDownlink =>
      simp only [threadStep, Option.some.injEq] at hstep
      subst hstep
      exact ⟨⟨.inr ⟨.check, by simp [hone], hon, nofun⟩, hul, hdl.pop⟩,
        hrelaying (show _ = [Place.check] by simp [hone]) rfl rfl rfl rfl⟩
  | check =>
      simp only [threadStep, Option.some.injEq] at hstep
      subst hstep
      refine ⟨⟨.inr ⟨_, by simp [hone]; rfl, hon, ?_⟩, hul, hdl⟩,
        hrelaying (by simp [hone]; rfl) rfl rfl rfl rfl⟩
      cases hstop : relay.dataThreadStopReq <;> simp
  -- the thread is gone, as it was told
  | closing =>
      simp only [threadStep, Option.some.injEq] at hstep
      subst hstep
      exact ⟨⟨.inl ⟨by simp [hone], rfl, rfl⟩, hul, hdl⟩,
        fun hr => hended (hclosing rfl) hr rfl rfl⟩

/-! ### Runs -/

theorem step_sound (h : Sound relay) (event : Event) (hstep : relay.step event = some relay') :
    Sound relay' := by
  cases event with
  | command cmd created =>
      obtain rfl := Option.some.inj hstep
      obtain ⟨halone, hul, hdl, -⟩ := command_alone h.alone cmd created
      exact ⟨halone, hul ▸ h.ul, hdl ▸ h.dl⟩
  | pushUplink payload =>
      obtain rfl := Option.some.inj hstep
      exact ⟨h.alone, h.ul.push payload, h.dl⟩
  | pushDownlink payload =>
      obtain rfl := Option.some.inj hstep
      exact ⟨h.alone, h.ul, h.dl.push payload⟩
  | thread i connected => exact (thread_step h hstep).1

theorem sound_init : Sound Relay.init where
  alone := .inl ⟨rfl, rfl, rfl⟩
  ul := rfl
  dl := rfl

theorem run_sound (events : List Event) (h : Sound relay) (hrun : relay.run events = some relay') :
    Sound relay' := by
  induction events generalizing relay with
  | nil =>
      obtain rfl := Option.some.inj hrun
      exact h
  | cons event events ih =>
      simp only [Relay.run, List.foldlM_cons, Option.bind_eq_bind, Option.bind_eq_some_iff] at hrun
      obtain ⟨next, hstep, hrest⟩ := hrun
      exact ih (step_sound h event hstep) hrest

/-- Every thread is created, and no command of the run is late. -/
def inTime : Relay → List Event → Bool
  | _, [] => true
  | relay, event :: events =>
      (match event with
        | .command cmd created => created && !late relay cmd
        | _ => true) &&
      match relay.step event with
      | some relay' => inTime relay' events
      | none => true

/-- A run in time goes on relaying. -/
theorem run_relaying (events : List Event) (h : Sound relay) (hrelaying : Relaying relay)
    (htime : inTime relay events = true) (hrun : relay.run events = some relay') :
    Relaying relay' := by
  induction events generalizing relay with
  | nil =>
      obtain rfl := Option.some.inj hrun
      exact hrelaying
  | cons event events ih =>
      simp only [Relay.run, List.foldlM_cons, Option.bind_eq_bind, Option.bind_eq_some_iff] at hrun
      obtain ⟨next, hstep, hrest⟩ := hrun
      simp only [inTime, hstep, Bool.and_eq_true] at htime
      refine ih (step_sound h event hstep) ?_ htime.2 hrest
      cases event with
      | command cmd created =>
          obtain rfl := Option.some.inj hstep
          have hcommand := htime.1
          simp only [Bool.and_eq_true, Bool.not_eq_true'] at hcommand
          obtain ⟨-, -, -, hiff⟩ := command_alone h.alone cmd created
          exact (hiff hcommand.1).mpr hcommand.2
      | pushUplink payload =>
          obtain rfl := Option.some.inj hstep
          exact hrelaying
      | pushDownlink payload =>
          obtain rfl := Option.some.inj hstep
          exact hrelaying
      | thread i connected => exact (thread_step h hstep).2 hrelaying

/-- **The relay of call media.** In every run there is one data thread at most, and each queue hands
out the records of the payloads that were pushed while there was room, in order. Behind a command,
an open gate has a data thread with no stop request exactly when the command was not late; in a run
with no late command it has one in every state. -/
theorem call_media_relay (events : List Event) (relay : Relay)
    (hrun : Relay.init.run events = some relay) :
    (relay.threads.length ≤ 1 ∧ relay.ul.Follows 1 ∧ relay.dl.Follows 0 ∧
      ∀ cmd, Relaying (handleMdmCtrlCmd relay cmd true) ↔ late relay cmd = false) ∧
    (inTime Relay.init events = true → Relaying relay) ∧
    (∀ dirUplink payload, IsRecord dirUplink payload (record dirUplink payload)) := by
  refine ⟨?_, fun htime => ?_, isRecord_record⟩
  · have hsound := run_sound events sound_init hrun
    refine ⟨?_, hsound.ul, hsound.dl, fun cmd => ?_⟩
    · obtain ⟨hnone, -⟩ | ⟨place, hone, -⟩ := hsound.alone
      · simp [hnone]
      · simp [hone]
    · obtain ⟨-, -, -, hiff⟩ := command_alone hsound.alone cmd true
      exact hiff rfl
  · exact run_relaying events sound_init (fun hstarted => by cases hstarted) htime hrun

/-- The call ends and starts again before the thread looks at its request. -/
def quickRestart : List Event :=
  [.command 0 true, .command 7 true, .thread 0 true, .command 8 true, .command 7 true,
    .thread 0 false, .thread 0 true]

/-- **The thread ends behind the open gate.** -/
theorem quickRestart_ends : ∃ relay, Relay.init.run quickRestart = some relay ∧
    relay.started = true ∧ relay.incall = true ∧ relay.threads = [] ∧
    relay.dataThreadRunning = false ∧ ¬Relaying relay := by
  refine ⟨_, rfl, rfl, rfl, rfl, rfl, fun h => ?_⟩
  have hrunning := (h rfl rfl).1
  cases hrunning

/-- A call whose thread has ended before the next one starts. -/
def slowRestart : List Event :=
  [.command 0 true, .command 7 true, .pushUplink [1, 2], .thread 0 true, .thread 0 true, .thread 0 true,
    .command 8 true, .thread 0 true, .thread 0 true, .thread 0 true, .command 7 true]

theorem call_media_relay_slowRestart : ∃ relay, Relay.init.run slowRestart = some relay ∧
    Relaying relay ∧ relay.ul.popped = [record 1 [1, 2]] :=
  ⟨_, rfl, (call_media_relay slowRestart _ rfl).2.1 rfl, rfl⟩

end Mindone.Wfca
