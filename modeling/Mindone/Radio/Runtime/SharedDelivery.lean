import Mathlib.Data.List.Perm.Subperm
import Mindone.Radio.Runtime.Shared

/-!
# Mindone.Radio.Runtime.SharedDelivery

**Every accepted submission is answered once, and the deliveries keep their order.**

What the consumer got, the outputs and the deferred deliveries make one line. A push adds to
its end or replaces its last entry, a drain only moves the border between the parts. The
invariant `Sound` follows the line and the ledger of the submissions through every step of
every party.
-/

namespace Mindone.Radio.Runtime

open Mindone.Lib Queues
open Mindone.Mux (checkedAdd checkedAdd_eq)
open Mindone.Radio.Core (Request Value Indication Output RadioError)

/-- The invocations that the deliveries answer. -/
def invocations (deliveries : List Delivery) : List Nat := deliveries.filterMap Delivery.invocation

@[simp] theorem invocations_nil : invocations [] = [] := rfl

@[simp] theorem invocations_append (left right : List Delivery) :
    invocations (left ++ right) = invocations left ++ invocations right :=
  List.filterMap_append

theorem responses_eq (deliveries : List Delivery) :
    responses deliveries = (invocations deliveries).length := by
  rw [responses, invocations, List.length_filterMap_eq_countP, List.countP_eq_length_filter]

/-- The adjacency that lets a delivery take another one's place. -/
def Replaceable (left right : Delivery) : Prop := replaceable left right = true

theorem Replaceable.invocations_eq {left right : Delivery} (h : Replaceable left right) :
    invocations [left] = [] ∧ invocations [right] = [] := by
  cases left with
  | response invocation error value => cases h
  | indication first =>
      cases right with
      | response invocation error value => cases first <;> cases h
      | indication second => exact ⟨rfl, rfl⟩

/-- A response takes no other delivery's place, and none takes its place. -/
theorem not_replaceable_of_response {delivery : Delivery} (h : delivery.invocation.isSome) :
    ∀ other, ¬ Replaceable delivery other ∧ ¬ Replaceable other delivery := by
  intro other
  cases delivery with
  | indication indication => cases h
  | response invocation error value =>
      constructor <;> intro hr
      · cases hr.invocations_eq.1
      · cases hr.invocations_eq.2

namespace Queues

variable {capacity : Nat} {q : Queues}

/-- Every delivery that is left, in its order. -/
def line (q : Queues) : List Delivery := q.delivered ++ (q.outputs ++ q.deferred)

/-! ### The two queues -/

/-- Deliveries are deferred only behind full outputs. -/
structure Filled (capacity : Nat) (outputs deferred : List Delivery) : Prop where
  room : outputs.length ≤ capacity
  full : deferred ≠ [] → outputs.length = capacity

theorem Filled.deferred_eq_nil {outputs deferred : List Delivery}
    (h : Filled capacity outputs deferred) (hpos : 0 < capacity) (hempty : outputs = []) :
    deferred = [] := by
  by_contra hne
  have hfull := h.full hne
  rw [hempty] at hfull
  exact absurd hfull (Nat.ne_of_lt hpos)

theorem flushLoop_spec (outputs deferred : List Delivery) (h : outputs.length ≤ capacity) :
    (flushLoop capacity outputs deferred).1 ++ (flushLoop capacity outputs deferred).2 =
        outputs ++ deferred ∧
      Filled capacity (flushLoop capacity outputs deferred).1
        (flushLoop capacity outputs deferred).2 := by
  induction deferred generalizing outputs with
  | nil => exact ⟨rfl, h, fun hne => absurd rfl hne⟩
  | cons delivery deferred ih =>
      unfold flushLoop
      split
      · rename_i hroom
        have hnext := ih (outputs ++ [delivery]) (by rw [List.length_append]; exact hroom)
        simpa using hnext
      · rename_i hroom
        exact ⟨rfl, h, fun _ => Nat.le_antisymm h (Nat.not_lt.mp hroom)⟩

theorem replace_cases {last : Delivery} (h : Filled capacity q.outputs q.deferred)
    (hlast : q.previous = some last) (delivery : Delivery) :
    ∃ outputs deferred kept, q.replace delivery = { q with outputs, deferred } ∧
      Filled capacity outputs deferred ∧ q.outputs ++ q.deferred = kept ++ [last] ∧
      outputs ++ deferred = kept ++ [delivery] := by
  obtain ⟨hroom, hfull⟩ := h
  unfold previous at hlast
  unfold replace
  rcases List.eq_nil_or_concat q.deferred with hempty | ⟨deferred, x, hdeferred⟩
  · rw [hempty, List.getLast?_nil, Option.none_or, List.getLast?_eq_some_iff] at hlast
    obtain ⟨kept, hkept⟩ := hlast
    rw [hkept] at hroom
    rw [if_pos hempty, hempty, hkept]
    refine ⟨kept ++ [delivery], [], kept, by simp, ⟨?_, fun hne => absurd rfl hne⟩, ?_, ?_⟩
    · simpa using hroom
    · simp
    · simp
  · rw [List.concat_eq_append] at hdeferred
    rw [hdeferred, List.getLast?_concat, Option.some_or] at hlast
    cases hlast
    rw [hdeferred] at hfull
    rw [if_neg (by simp [hdeferred]), hdeferred]
    refine ⟨q.outputs, deferred ++ [delivery], q.outputs ++ deferred, by simp, ⟨hroom, ?_⟩, ?_, ?_⟩
    · exact fun _ => hfull (by simp)
    · simp
    · simp

/-- A push ends the line with the new delivery, behind the old last one or in its place. -/
theorem push_cases (h : Filled capacity q.outputs q.deferred) (delivery : Delivery) :
    ∃ outputs deferred,
      q.push capacity delivery = { q with outputs, deferred, pushed := q.pushed ++ [delivery] } ∧
      Filled capacity outputs deferred ∧
      (outputs ++ deferred = q.outputs ++ q.deferred ++ [delivery] ∨
        ∃ kept last, q.outputs ++ q.deferred = kept ++ [last] ∧ Replaceable last delivery ∧
          outputs ++ deferred = kept ++ [delivery]) := by
  obtain ⟨q', hq'⟩ : ∃ q', q' = { q with pushed := q.pushed ++ [delivery] } := ⟨_, rfl⟩
  have hfilled : Filled capacity q'.outputs q'.deferred := by
    rw [hq']
    exact h
  have hpush : q.push capacity delivery =
      if q'.previous.any fun last => replaceable last delivery then q'.replace delivery
      else { q' with deferred := q'.deferred ++ [delivery] }.flush capacity := by
    rw [hq']
    rfl
  rw [hpush]
  split
  · rename_i hany
    obtain ⟨last, hlast, hr⟩ := (Option.any_eq_true _ _).mp hany
    obtain ⟨outputs, deferred, kept, heq, hfilled, hold, hnew⟩ :=
      replace_cases hfilled hlast delivery
    refine ⟨outputs, deferred, ?_, hfilled, .inr ⟨kept, last, ?_, hr, hnew⟩⟩
    · rw [heq, hq']
    · rw [← hold, hq']
  · obtain ⟨hline, hflushed⟩ := flushLoop_spec q.outputs (q.deferred ++ [delivery]) h.room
    refine ⟨_, _, ?_, hflushed, .inl ?_⟩
    · rw [hq']
      rfl
    · rw [List.append_assoc]
      exact hline

/-! ### The invariant -/

/-- The line and the ledger. -/
structure Sound (capacity : Nat) (q : Queues) : Prop where
  filled : Filled capacity q.outputs q.deferred
  coalesced : Coalesced Replaceable q.pushed q.line
  /-- Every submission waits for its answer or has it. -/
  ledger : q.submitted.Perm (q.accepted ++ q.answered)
  /-- No two submissions have one number. -/
  distinct : (q.submitted.map Prod.fst).Nodup
  numbered : ∀ entry ∈ q.submitted, entry.1 ≤ q.nextId
  /-- The responses in the line are the answers, in their order. -/
  responded : invocations q.line = q.answered.map Prod.snd
  outstanding_eq : q.outstanding =
    q.accepted.length + (invocations (q.outputs ++ q.deferred)).length
  limited : q.outstanding ≤ acceptedLimit

theorem sound_new : Sound capacity .new where
  filled := ⟨Nat.zero_le _, fun hne => absurd rfl hne⟩
  coalesced := .nil
  ledger := .refl _
  distinct := List.nodup_nil
  numbered := fun _ hmem => absurd hmem List.not_mem_nil
  responded := rfl
  outstanding_eq := rfl
  limited := Nat.zero_le _

/-- What a push does to the line. -/
theorem push_line {outputs deferred : List Delivery} {delivery : Delivery}
    (h : Coalesced Replaceable q.pushed q.line)
    (hpush : outputs ++ deferred = q.outputs ++ q.deferred ++ [delivery] ∨
      ∃ kept last, q.outputs ++ q.deferred = kept ++ [last] ∧ Replaceable last delivery ∧
        outputs ++ deferred = kept ++ [delivery]) :
    Coalesced Replaceable (q.pushed ++ [delivery]) (q.delivered ++ (outputs ++ deferred)) ∧
      invocations (outputs ++ deferred) =
        invocations (q.outputs ++ q.deferred) ++ invocations [delivery] := by
  unfold line at h
  rcases hpush with hpush | ⟨kept, last, hold, hr, hpush⟩
  · rw [hpush, ← List.append_assoc]
    exact ⟨h.snoc delivery, invocations_append _ _⟩
  · rw [hold, ← List.append_assoc] at h
    rw [hpush, hold, ← List.append_assoc, invocations_append, invocations_append,
      hr.invocations_eq.1, hr.invocations_eq.2]
    exact ⟨h.replace hr, by simp⟩

theorem Sound.push_indication (h : Sound capacity q) (indication : Indication) :
    Sound capacity (q.push capacity (.indication indication)) := by
  obtain ⟨outputs, deferred, heq, hfilled, hpush⟩ := push_cases h.filled (.indication indication)
  obtain ⟨hcoalesced, hinvocations⟩ := push_line h.coalesced hpush
  have hnone : invocations [Delivery.indication indication] = [] := rfl
  rw [hnone, List.append_nil] at hinvocations
  rw [heq]
  have hresponded := h.responded
  unfold line at hresponded
  rw [invocations_append] at hresponded
  refine { h with filled := hfilled, coalesced := hcoalesced, responded := ?_, outstanding_eq := ?_ }
  · change invocations (q.delivered ++ (outputs ++ deferred)) = q.answered.map Prod.snd
    rw [invocations_append, hinvocations, hresponded]
  · rw [hinvocations]
    exact h.outstanding_eq

/-- The entry with this number, and the entries with another one. -/
theorem perm_filter_ne {entries : List (Nat × Nat)} {id : Nat} {entry : Nat × Nat}
    (hdistinct : (entries.map Prod.fst).Nodup)
    (hfind : entries.find? (fun entry => entry.1 = id) = some entry) :
    entries.Perm (entry :: entries.filter fun entry => entry.1 ≠ id) := by
  induction entries with
  | nil => cases hfind
  | cons first rest ih =>
      rw [List.map_cons, List.nodup_cons] at hdistinct
      by_cases hid : first.1 = id
      · rw [List.find?_cons_of_pos (by simpa using hid)] at hfind
        cases hfind
        have hrest : rest.filter (fun entry => decide (entry.1 ≠ id)) = rest := by
          refine List.filter_eq_self.mpr fun other hother => decide_eq_true ?_
          rintro rfl
          exact hdistinct.1 (hid ▸ List.mem_map_of_mem hother)
        rw [List.filter_cons_of_neg (by simpa using hid), hrest]
      · rw [List.find?_cons_of_neg (by simpa using hid)] at hfind
        rw [List.filter_cons_of_pos (by simpa using hid)]
        exact ((ih hdistinct.2 hfind).cons first).trans (.swap _ _ _)

theorem Sound.accepted_distinct (h : Sound capacity q) : (q.accepted.map Prod.fst).Nodup := by
  have hnodup := ((h.ledger.map Prod.fst).nodup_iff).mp h.distinct
  rw [List.map_append] at hnodup
  exact hnodup.of_append_left

/-- The answer to a number that is accepted. -/
theorem response_cases (h : Sound capacity q) (id : Nat) (error : RadioError)
    (value : Option Value) :
    Sound capacity (q.response capacity id error value) ∧
      (q.response capacity id error value).accepted =
        q.accepted.filter (fun entry => entry.1 ≠ id) ∧
      (q.response capacity id error value).submissions = q.submissions ∧
      (q.response capacity id error value).delivered = q.delivered ∧
      (q.response capacity id error value).finished = q.finished := by
  unfold response
  split
  -- The number is not known, and nothing happens.
  · rename_i hnone
    refine ⟨h, (List.filter_eq_self.mpr fun entry hentry => ?_).symm, rfl, rfl, rfl⟩
    simpa using List.find?_eq_none.mp hnone entry hentry
  · rename_i number invocation hfind
    obtain rfl : number = id := by simpa using List.find?_some hfind
    -- It is known: the response is pushed and the number struck out.
    obtain ⟨outputs, deferred, heq, hfilled, hpush⟩ :=
      push_cases h.filled (.response invocation error value)
    obtain ⟨hcoalesced, hinvocations⟩ := push_line h.coalesced hpush
    have hone : invocations [Delivery.response invocation error value] = [invocation] := rfl
    have hperm := perm_filter_ne h.accepted_distinct hfind
    have hresponded := h.responded
    unfold line at hresponded
    rw [invocations_append] at hresponded
    rw [heq]
    refine ⟨{ h with
      filled := hfilled
      coalesced := hcoalesced
      ledger := ?_
      responded := ?_
      outstanding_eq := ?_ }, rfl, rfl, rfl, rfl⟩
    -- What was accepted is now answered; the sum is the same.
    · refine h.ledger.trans ((hperm.append_right _).trans ?_)
      change List.Perm _ (q.accepted.filter _ ++ (q.answered ++ [(number, invocation)]))
      rw [← List.append_assoc, List.cons_append]
      exact (List.perm_append_singleton _ _).symm
    · change invocations (q.delivered ++ (outputs ++ deferred)) =
        (q.answered ++ [(number, invocation)]).map Prod.snd
      rw [invocations_append, hinvocations, hone, ← List.append_assoc, hresponded]
      simp
    · have houtstanding := h.outstanding_eq
      have hlength := hperm.length_eq
      rw [List.length_cons] at hlength
      rw [hinvocations, hone, List.length_append, List.length_singleton]
      change q.outstanding = (q.accepted.filter _).length + _
      omega

/-- The answers that `finish` gives to the numbers `ids`. -/
theorem finish_loop (ids : List Nat) (h : Sound capacity q) :
    Sound capacity
        (ids.foldl (fun q id => q.response capacity id .radioNotAvailable none) q) ∧
      (ids.foldl (fun q id => q.response capacity id .radioNotAvailable none) q).accepted =
        q.accepted.filter fun entry => entry.1 ∉ ids := by
  induction ids generalizing q with
  | nil => exact ⟨h, by simp⟩
  | cons id ids ih =>
      obtain ⟨hsound, haccepted, -⟩ := response_cases h id .radioNotAvailable none
      obtain ⟨hend, hleft⟩ := ih hsound
      refine ⟨hend, hleft.trans ?_⟩
      rw [haccepted, List.filter_filter]
      refine List.filter_congr fun entry _ => ?_
      rw [← Bool.decide_and]
      simp [not_or, and_comm]

theorem Sound.submissions (h : Sound capacity q) (submissions : List Submission) :
    Sound capacity { q with submissions } :=
  ⟨h.filled, h.coalesced, h.ledger, h.distinct, h.numbered, h.responded, h.outstanding_eq,
    h.limited⟩

theorem Sound.finish (h : Sound capacity q) :
    Sound capacity (q.finish capacity) ∧ (q.finish capacity).accepted = [] := by
  obtain ⟨hsound, hleft⟩ := finish_loop (q.accepted.map Prod.fst) (h.submissions [])
  refine ⟨⟨hsound.filled, hsound.coalesced, hsound.ledger, hsound.distinct, hsound.numbered,
    hsound.responded, hsound.outstanding_eq, hsound.limited⟩, hleft.trans ?_⟩
  refine List.filter_eq_nil_iff.mpr fun entry hentry => ?_
  simpa using ⟨entry.2, hentry⟩

/-- A submission takes the next number. -/
theorem Sound.submit (h : Sound capacity q) {stopped : Bool} {invocation : Nat}
    {request : Request} {q' : Queues} (hsubmit : q.submit stopped invocation request = .ok q') :
    Sound capacity q' := by
  unfold Queues.submit at hsubmit
  split at hsubmit
  · cases hsubmit
  split at hsubmit
  · cases hsubmit
  rename_i hroom
  split at hsubmit
  · cases hsubmit
  rename_i id hid
  cases hsubmit
  -- The number is the next one, above all given so far.
  have hid : id = q.nextId + 1 := checkedAdd_eq hid
  rw [not_or] at hroom
  refine { h with ledger := ?_, distinct := ?_, numbered := ?_, outstanding_eq := ?_, limited := ?_ }
  · change List.Perm (q.submitted ++ [(id, invocation)])
      ((q.accepted ++ [(id, invocation)]) ++ q.answered)
    -- One more submitted, one more accepted.
    refine (h.ledger.append_right _).trans ?_
    rw [List.append_assoc, List.append_assoc]
    exact .append_left _ List.perm_append_comm
  · change ((q.submitted ++ [(id, invocation)]).map Prod.fst).Nodup
    rw [List.map_append, List.map_singleton]
    refine List.nodup_append.mpr ⟨h.distinct, List.nodup_singleton _, ?_⟩
    intro number hnumber other hother
    obtain ⟨entry, hentry, rfl⟩ := List.mem_map.mp hnumber
    have hle := h.numbered entry hentry
    rw [List.mem_singleton.mp hother]
    change entry.1 ≠ id
    omega
  · intro entry hentry
    rcases List.mem_append.mp hentry with hentry | hentry
    · have hle := h.numbered entry hentry
      change entry.1 ≤ id
      omega
    · rw [List.mem_singleton.mp hentry]
  · change q.outstanding + 1 = (q.accepted ++ [(id, invocation)]).length +
      (invocations (q.outputs ++ q.deferred)).length
    rw [List.length_append, List.length_singleton, h.outstanding_eq]
    omega
  · exact Nat.lt_of_le_of_ne h.limited hroom.2

/-- What an attempt of the consumer does. -/
theorem nextBatchWait_cases (capacity : Nat) (q : Queues) (timedOut : Bool) :
    (q.nextBatchWait capacity timedOut = (.waiting, q) ∧ q.outputs = []) ∨
      (q.nextBatchWait capacity timedOut = (.ended, q) ∧ q.outputs = [] ∧ q.finished = true) ∨
      ∃ outputs deferred,
        q.nextBatchWait capacity timedOut =
          (.some q.outputs,
            { q with
              outputs
              deferred
              outstanding := q.outstanding - responses q.outputs
              delivered := q.delivered ++ q.outputs }) ∧
        outputs ++ deferred = q.deferred ∧ Filled capacity outputs deferred := by
  unfold nextBatchWait
  split
  · rename_i hwait
    exact .inl ⟨rfl, hwait.1⟩
  split
  · rename_i hended
    exact .inr (.inl ⟨rfl, hended.1, hended.2⟩)
  · obtain ⟨hline, hfilled⟩ := flushLoop_spec [] q.deferred (Nat.zero_le capacity)
    exact .inr (.inr ⟨_, _, rfl, hline, hfilled⟩)

/-- A batch that is handed out keeps the queues sound. -/
theorem Sound.nextBatchWait (h : Sound capacity q) (timedOut : Bool) :
    Sound capacity (q.nextBatchWait capacity timedOut).2 := by
  obtain ⟨heq, -⟩ | ⟨heq, -⟩ | ⟨outputs, deferred, heq, hline, hfilled⟩ :=
    nextBatchWait_cases capacity q timedOut
  · rw [heq]
    exact h
  · rw [heq]
    exact h
  · rw [heq]
    have hsame : q.delivered ++ q.outputs ++ (outputs ++ deferred) = q.line := by
      rw [hline, List.append_assoc]
      rfl
    have houtstanding := h.outstanding_eq
    rw [invocations_append, List.length_append] at houtstanding
    refine { h with
      filled := hfilled
      coalesced := ?_
      responded := ?_
      outstanding_eq := ?_
      limited := (Nat.sub_le _ _).trans h.limited }
    · change Coalesced Replaceable q.pushed (q.delivered ++ q.outputs ++ (outputs ++ deferred))
      rw [hsame]
      exact h.coalesced
    · change invocations (q.delivered ++ q.outputs ++ (outputs ++ deferred)) = _
      rw [hsame]
      exact h.responded
    · change q.outstanding - responses q.outputs =
        q.accepted.length + (invocations (outputs ++ deferred)).length
      rw [hline, responses_eq]
      omega

end Queues

/-! ### Runs -/

variable {capacity : Nat} {s : System}

/-- The queues are sound, and once the reactor has finished nothing is accepted any more. -/
structure System.Sound (capacity : Nat) (s : System) : Prop where
  queues : Queues.Sound capacity s.queues
  ended : s.running = false → s.stopped = true
  finished : s.queues.finished = true → s.running = false ∧ s.queues.accepted = []

namespace System.Sound

/-- While the reactor runs, its steps on the queues keep them sound. -/
theorem of_running (h : Sound capacity s) (hrun : s.running = true) {s' : System}
    (hqueues : Queues.Sound capacity s'.queues) (hrun' : s'.running = s.running)
    (hstopped : s'.stopped = s.stopped) (hfinished : s'.queues.finished = s.queues.finished) :
    Sound capacity s' where
  queues := hqueues
  ended := by
    rw [hrun', hstopped]
    exact h.ended
  finished := by
    rw [hfinished]
    intro hend
    rw [(h.finished hend).1] at hrun
    cases hrun

theorem collectOne (h : Sound capacity s) (hrun : s.running = true) (output : Output) :
    Sound capacity (s.collectOne capacity output) ∧
      (s.collectOne capacity output).running = true := by
  cases output with
  | response serial error value =>
      cases hfind : s.tokens.find? fun entry => entry.1 = serial with
      | none =>
          simp only [System.collectOne, hfind]
          exact ⟨h, hrun⟩
      | some entry =>
          simp only [System.collectOne, hfind]
          obtain ⟨hsound, -, -, -, hsame⟩ := response_cases h.queues entry.2 error value
          exact ⟨h.of_running hrun hsound rfl rfl hsame, hrun⟩
  | indication indication =>
      obtain ⟨outputs, deferred, heq, -⟩ := push_cases h.queues.filled (.indication indication)
      refine ⟨h.of_running hrun (h.queues.push_indication indication) rfl rfl ?_, hrun⟩
      change (s.queues.push capacity _).finished = _
      rw [heq]

theorem collect (outputs : List Output) (h : Sound capacity s) (hrun : s.running = true) :
    Sound capacity (s.collect capacity outputs) ∧ (s.collect capacity outputs).running = true := by
  induction outputs generalizing s with
  | nil => exact ⟨h, hrun⟩
  | cons output outputs ih =>
      obtain ⟨hnext, hrun⟩ := h.collectOne hrun output
      exact ih hnext hrun

theorem take (h : Sound capacity s) (hrun : s.running = true) : Sound capacity s.take := by
  unfold System.take
  cases s.queues.submissions with
  | nil => exact h
  | cons submission submissions =>
      exact h.of_running hrun (h.queues.submissions submissions) rfl rfl rfl

theorem submit (h : Sound capacity s) {invocation : Nat} {request : Request} {q : Queues}
    (hsubmit : s.queues.submit s.stopped invocation request = .ok q) :
    Sound capacity { s with queues := q } := by
  have hsound := h.queues.submit hsubmit
  unfold Queues.submit at hsubmit
  split at hsubmit
  · cases hsubmit
  rename_i hopen
  split at hsubmit
  · cases hsubmit
  split at hsubmit
  · cases hsubmit
  cases hsubmit
  refine ⟨hsound, h.ended, fun hfinished => ?_⟩
  -- a finished reactor has stopped, and then nothing is accepted
  exact absurd (h.ended (h.finished hfinished).1) hopen

/-- **Every step keeps the system sound.** -/
theorem next (h : Sound capacity s) {act : Act} (allowed : act.Allowed s) :
    Sound capacity (s.next capacity act) := by
  cases act with
  | submit invocation request =>
      cases hsubmit : s.queues.submit s.stopped invocation request with
      | error error =>
          simp only [System.next, hsubmit]
          exact h
      | ok q =>
          simp only [System.next, hsubmit]
          exact h.submit hsubmit
  | wakeFailed => exact ⟨h.queues, fun _ => rfl, h.finished⟩
  | stop => exact ⟨h.queues, fun _ => rfl, h.finished⟩
  | nextBatchWait timedOut =>
      refine ⟨h.queues.nextBatchWait timedOut, h.ended, ?_⟩
      change (s.queues.nextBatchWait capacity timedOut).2.finished = true →
        s.running = false ∧ (s.queues.nextBatchWait capacity timedOut).2.accepted = []
      obtain ⟨heq, -⟩ | ⟨heq, -⟩ | ⟨outputs, deferred, heq, -⟩ :=
        nextBatchWait_cases capacity s.queues timedOut <;>
        · rw [heq]
          exact h.finished
  | take => exact h.take allowed
  | collect outputs => exact (h.collect outputs allowed).1
  | reactorEnds => exact ⟨h.queues, fun _ => rfl, fun hfinished => ⟨rfl, (h.finished hfinished).2⟩⟩
  | finish =>
      obtain ⟨hsound, hempty⟩ := h.queues.finish
      exact ⟨hsound, h.ended, fun _ => ⟨allowed.1, hempty⟩⟩

theorem of_reach (h : Reach capacity s) : 0 < capacity ∧ Sound capacity s := by
  induction h with
  | start hstart =>
      unfold System.start at hstart
      split at hstart
      · cases hstart
      rename_i hcapacity
      cases hstart
      refine ⟨by omega, sound_new, fun hrun => ?_, fun hfinished => ?_⟩
      · cases hrun
      · cases hfinished
  | step _ act allowed ih => exact ⟨ih.1, ih.2.next allowed⟩

end System.Sound

/-! ### What the consumer has in hand -/

theorem push_delivered (capacity : Nat) (q : Queues) (delivery : Delivery) :
    (q.push capacity delivery).delivered = q.delivered := by
  unfold Queues.push Queues.replace
  dsimp only
  split
  · split
    · rfl
    · rfl
  · rfl

theorem response_delivered (capacity : Nat) (q : Queues) (id : Nat) (error : RadioError)
    (value : Option Value) : (q.response capacity id error value).delivered = q.delivered := by
  unfold Queues.response
  split
  · rfl
  · exact push_delivered _ _ _

theorem finish_delivered (capacity : Nat) (q : Queues) :
    (q.finish capacity).delivered = q.delivered := by
  have hloop : ∀ (ids : List Nat) (q : Queues),
      (ids.foldl (fun q id => q.response capacity id .radioNotAvailable none) q).delivered =
        q.delivered := by
    intro ids
    induction ids with
    | nil => exact fun _ => rfl
    | cons id ids ih => exact fun q => (ih _).trans (response_delivered _ _ _ _ _)
  exact hloop _ _

theorem collect_delivered (capacity : Nat) (s : System) (outputs : List Output) :
    (s.collect capacity outputs).queues.delivered = s.queues.delivered := by
  unfold System.collect
  induction outputs generalizing s with
  | nil => rfl
  | cons output outputs ih =>
      rw [List.foldl_cons, ih]
      cases output with
      | indication indication => exact push_delivered _ _ _
      | response serial error value =>
          simp only [System.collectOne]
          split
          · rfl
          · exact response_delivered _ _ _ _ _

/-- **The consumer's calls alone hand something out**, and what they hand out is booked. -/
theorem next_delivered (capacity : Nat) (s : System) (act : Act) :
    (s.next capacity act).queues.delivered = s.queues.delivered ++ s.handed capacity act := by
  cases act with
  | nextBatchWait timedOut =>
      simp only [System.next, System.handed]
      obtain ⟨heq, -⟩ | ⟨heq, -⟩ | ⟨outputs, deferred, heq, -⟩ :=
        nextBatchWait_cases capacity s.queues timedOut
      · rw [heq]
        exact (List.append_nil _).symm
      · rw [heq]
        exact (List.append_nil _).symm
      · rw [heq]
        rfl
  | submit invocation request =>
      simp only [System.next, System.handed, List.append_nil]
      split
      · rfl
      · rename_i queues hsubmit
        unfold Queues.submit at hsubmit
        split_ifs at hsubmit
        split at hsubmit
        · cases hsubmit
        · cases hsubmit
          rfl
  | take =>
      simp only [System.next, System.handed, List.append_nil, System.take]
      split
      · rfl
      · rfl
  | collect outputs => exact (collect_delivered _ _ _).trans (List.append_nil _).symm
  | finish => exact (finish_delivered _ _).trans (List.append_nil _).symm
  | wakeFailed | stop | reactorEnds => exact (List.append_nil _).symm

/-- **What is booked as delivered is what the consumer got**, in every script. -/
theorem run_delivered (capacity : Nat) (s : System) (acts : List Act) :
    (acts.foldl (System.next capacity) s).queues.delivered =
      s.queues.delivered ++ s.handedOut capacity acts := by
  induction acts generalizing s with
  | nil => exact (List.append_nil _).symm
  | cons act acts ih =>
      rw [List.foldl_cons, ih, next_delivered, List.append_assoc]
      rfl

/-! ### The laws -/

/-- **Exactly one response for each accepted submission.** In every reachable state every
submission that was accepted, by its number, either waits or has been answered once, and the
responses among the deliveries are these answers. The count of what is outstanding is exact and
bounded, deliveries are deferred only behind full outputs, and an attempt of the consumer that
waits or ends leaves nothing behind. What counts as delivered is what the batches handed out. -/
theorem response_once (h : Reach capacity s) :
    (s.queues.submitted.map Prod.fst).Nodup ∧
      s.queues.submitted.Perm (s.queues.accepted ++ s.queues.answered) ∧
      invocations (s.queues.delivered ++ (s.queues.outputs ++ s.queues.deferred)) =
        s.queues.answered.map Prod.snd ∧
      s.queues.outstanding = s.queues.accepted.length +
        (responses s.queues.outputs + responses s.queues.deferred) ∧
      s.queues.outstanding ≤ acceptedLimit ∧
      responses s.queues.outputs ≤ s.queues.outstanding ∧
      (s.queues.deferred ≠ [] → s.queues.outputs.length = capacity) ∧
      (∀ timedOut,
        ((s.queues.nextBatchWait capacity timedOut).1 = .waiting → s.queues.deferred = []) ∧
        ((s.queues.nextBatchWait capacity timedOut).1 = .ended →
          s.queues.deferred = [] ∧ s.queues.submitted.Perm s.queues.answered ∧
          invocations s.queues.delivered = s.queues.answered.map Prod.snd)) ∧
      ∀ acts, (acts.foldl (System.next capacity) s).queues.delivered =
        s.queues.delivered ++ s.handedOut capacity acts := by
  obtain ⟨hpos, hqueues, -, hfinished⟩ := System.Sound.of_reach h
  have houtstanding := hqueues.outstanding_eq
  rw [invocations_append, List.length_append, ← responses_eq, ← responses_eq] at houtstanding
  refine ⟨hqueues.distinct, hqueues.ledger, hqueues.responded, houtstanding, hqueues.limited,
    by omega, hqueues.filled.full, fun timedOut => ?_, run_delivered capacity s⟩
  obtain ⟨heq, hempty⟩ | ⟨heq, hempty, hend⟩ | ⟨outputs, deferred, heq, -⟩ :=
    nextBatchWait_cases capacity s.queues timedOut
  · rw [heq]
    exact ⟨fun _ => hqueues.filled.deferred_eq_nil hpos hempty, nofun⟩
  · rw [heq]
    refine ⟨nofun, fun _ => ?_⟩
    have hdeferred := hqueues.filled.deferred_eq_nil hpos hempty
    have hledger := hqueues.ledger
    have hresponded := hqueues.responded
    rw [(hfinished hend).2, List.nil_append] at hledger
    rw [Queues.line, hempty, hdeferred, List.append_nil, List.append_nil] at hresponded
    exact ⟨hdeferred, hledger, hresponded⟩
  · rw [heq]
    exact ⟨nofun, nofun⟩

/-- Two callers with one invocation number; the second submission is answered at the end. -/
def sampleActs : List Act :=
  [.submit 7 (.modem .getImei), .submit 7 (.modem .getCurrentCalls), .take,
    .collect [.indication .networkStateChanged, .response 1 .none none,
      .indication (.currentSignalStrength .default),
      .indication (.currentSignalStrength ⟨some ⟨some 9, none⟩, none, none⟩)],
    .nextBatchWait false, .reactorEnds, .finish, .nextBatchWait false, .nextBatchWait false,
    .nextBatchWait false]

def sampleStart : System := ⟨.new, false, true, [], 0⟩

def sampleSystem : System := sampleActs.foldl (System.next 1) sampleStart

theorem sample_reach : Reach 1 sampleSystem :=
  Reach.of_script (.start rfl) sampleActs (by decide +kernel)

/-- Both callers find their response in the batches. -/
theorem response_once_scripted :
    sampleSystem.queues.submitted = [(1, 7), (2, 7)] ∧
      sampleSystem.queues.submitted.Perm sampleSystem.queues.answered ∧
      invocations (sampleStart.handedOut 1 sampleActs) = [7, 7] := by
  have hended : (sampleSystem.queues.nextBatchWait 1 false).1 = .ended := by decide +kernel
  obtain ⟨-, -, -, -, -, -, -, hbatch, -⟩ := response_once sample_reach
  obtain ⟨-, hperm, hinvocations⟩ := (hbatch false).2 hended
  have hstart : Reach 1 sampleStart := .start rfl
  obtain ⟨-, -, -, -, -, -, -, -, hhanded⟩ := response_once hstart
  refine ⟨by decide +kernel, hperm, ?_⟩
  have hsame : sampleStart.handedOut 1 sampleActs = sampleSystem.queues.delivered :=
    (hhanded sampleActs).symm
  rw [hsame, hinvocations]
  decide +kernel

/-- **The order of the deliveries.** What the consumer got, the outputs and the deferred
deliveries are the pushed sequence with some runs of adjacent indications of one kind replaced
by their last one. Responses are kept as they are between what came before them and what came
behind them, and the last indication of a run is kept. What the consumer got are the batches. -/
theorem delivery_order (h : Reach capacity s) :
    Coalesced Replaceable s.queues.pushed s.queues.line ∧
      (∀ before delivery after, s.queues.pushed = before ++ delivery :: after →
        delivery.invocation.isSome →
        ∃ keptBefore keptAfter, s.queues.line = keptBefore ++ delivery :: keptAfter ∧
          Coalesced Replaceable before keptBefore ∧ Coalesced Replaceable after keptAfter) ∧
      (∀ before delivery after, s.queues.pushed = before ++ delivery :: after →
        (∀ following ∈ after.head?, ¬ Replaceable delivery following) →
        ∃ keptBefore keptAfter, s.queues.line = keptBefore ++ delivery :: keptAfter ∧
          Coalesced Replaceable (before ++ [delivery]) (keptBefore ++ [delivery]) ∧
          Coalesced Replaceable after keptAfter) ∧
      ∀ acts, (acts.foldl (System.next capacity) s).queues.delivered =
        s.queues.delivered ++ s.handedOut capacity acts := by
  have hcoalesced := (System.Sound.of_reach h).2.queues.coalesced
  refine ⟨hcoalesced, ?_, ?_, run_delivered capacity s⟩
  · intro before delivery after hpushed hresponse
    have halone := not_replaceable_of_response hresponse
    rw [hpushed] at hcoalesced
    exact hcoalesced.around (fun other _ => (halone other).2) fun other _ => (halone other).1
  · intro before delivery after hpushed hlast
    rw [hpushed] at hcoalesced
    exact hcoalesced.cut hlast

/-- Of the two signal values the last one is in the batches. -/
theorem delivery_order_scripted :
    sampleSystem.queues.pushed.length = 5 ∧ (sampleStart.handedOut 1 sampleActs).length = 4 ∧
      Coalesced Replaceable sampleSystem.queues.pushed
        (sampleStart.handedOut 1 sampleActs ++
          (sampleSystem.queues.outputs ++ sampleSystem.queues.deferred)) := by
  have hstart : Reach 1 sampleStart := .start rfl
  have hsame : sampleStart.handedOut 1 sampleActs = sampleSystem.queues.delivered :=
    ((delivery_order hstart).2.2.2 sampleActs).symm
  rw [hsame]
  exact ⟨by decide +kernel, by decide +kernel, (delivery_order sample_reach).1⟩

/-! ### The tokens -/

namespace System

/-- The token that is tried after `count` others. -/
def tried (token : Int) (count : Nat) : Int :=
  if token + count + 1 ≤ i32Max then token + count + 1 else token + count + 1 - i32Max

theorem tried_succ (token : Int) (count : Nat) (hcount : (count : Int) + 1 < i32Max)
    (hhigh : token ≤ i32Max) :
    tried (tried token 0) count = tried token (count + 1) := by
  unfold tried
  split_ifs <;> push_cast at * <;> omega

/-- The loop ends at a free token, or all that it tried are taken. -/
theorem freeToken_cases (tokens : List (Int × Nat)) (fuel : Nat) (token : Int)
    (hfuel : fuel ≤ i32Max) (hlow : 0 ≤ token) (hhigh : token ≤ i32Max) :
    freeToken tokens fuel token ∉ tokens.map Prod.fst ∨
      ∀ count < fuel, tried token count ∈ tokens.map Prod.fst := by
  induction fuel generalizing token with
  | zero => exact .inr fun count hcount => absurd hcount (Nat.not_lt_zero _)
  | succ fuel ih =>
      have hfirst : (if token = i32Max then 1 else token + 1) = tried token 0 := by
        unfold tried
        split_ifs <;> push_cast at * <;> omega
      have hbounds : 0 ≤ tried token 0 ∧ tried token 0 ≤ i32Max := by
        unfold tried
        split_ifs <;> push_cast at * <;> omega
      push_cast at hfuel
      unfold freeToken
      simp only [hfirst]
      split
      · rename_i htaken
        rcases ih (tried token 0) (by omega) hbounds.1 hbounds.2 with hfree | hall
        · exact .inl hfree
        · refine .inr fun count hcount => ?_
          cases count with
          | zero => simpa using htaken
          | succ count =>
              rw [← tried_succ token count (by omega) hhigh]
              exact hall count (by omega)
      · rename_i hfree
        refine .inl fun hmem => hfree ?_
        simpa using hmem

/-- **The loop ends**: with more tries than there are tokens it finds a free one. -/
theorem freeToken_free (tokens : List (Int × Nat)) (token : Int)
    (hfew : (tokens.length : Int) < i32Max) (hlow : 0 ≤ token) (hhigh : token ≤ i32Max) :
    freeToken tokens (tokens.length + 1) token ∉ tokens.map Prod.fst := by
  rcases freeToken_cases tokens (tokens.length + 1) token (by push_cast; omega) hlow hhigh with
    hfree | hall
  · exact hfree
  · -- the tokens tried are different, so there are too many of them to be taken
    have hnodup : ((List.range (tokens.length + 1)).map (tried token)).Nodup := by
      refine List.Nodup.map_on ?_ List.nodup_range
      intro x hx y hy heq
      rw [List.mem_range] at hx hy
      unfold tried at heq
      split_ifs at heq <;> omega
    have hsubset : (List.range (tokens.length + 1)).map (tried token) ⊆ tokens.map Prod.fst := by
      intro other hother
      obtain ⟨count, hcount, rfl⟩ := List.mem_map.mp hother
      exact hall count (List.mem_range.mp hcount)
    have hlength := hnodup.length_le_of_subset hsubset
    simp only [List.length_map, List.length_range] at hlength
    omega

/-- The numbers that the reactor has given tokens to or has still to take. -/
def held (s : System) : List Nat := s.tokens.map Prod.snd ++ s.queues.submissions.map Submission.id

/-- While the reactor runs, what it holds are different submissions that wait for an answer. -/
structure Holding (s : System) : Prop where
  distinct : s.held.Nodup
  waiting : ∀ id ∈ s.held, id ∈ s.queues.accepted.map Prod.fst
  low : 0 ≤ s.nextToken
  high : s.nextToken ≤ i32Max

namespace Holding

theorem few (h : Holding s) (hsound : Sound capacity s) :
    (s.tokens.length : Int) < i32Max := by
  have hlength := h.distinct.length_le_of_subset h.waiting
  have houtstanding := hsound.queues.outstanding_eq
  have hlimited := hsound.queues.limited
  simp only [held, List.length_append, List.length_map] at hlength
  simp only [acceptedLimit] at hlimited
  simp only [i32Max]
  omega

theorem token_bounds (tokens : List (Int × Nat)) (fuel : Nat) (token : Int) (hlow : 0 ≤ token)
    (hhigh : token ≤ i32Max) :
    0 ≤ freeToken tokens fuel token ∧ freeToken tokens fuel token ≤ i32Max := by
  induction fuel generalizing token with
  | zero => exact ⟨hlow, hhigh⟩
  | succ fuel ih =>
      have hbounds : 0 ≤ (if token = i32Max then 1 else token + 1) ∧
          (if token = i32Max then 1 else token + 1) ≤ i32Max := by
        simp only [i32Max] at *
        split_ifs <;> omega
      simp only [freeToken]
      generalize (if token = i32Max then 1 else token + 1) = next at hbounds
      split
      · exact ih next hbounds.1 hbounds.2
      · exact hbounds

theorem take (h : Holding s) : Holding s.take := by
  unfold System.take
  cases hsubmissions : s.queues.submissions with
  | nil => exact h
  | cons submission submissions =>
      obtain ⟨token, htoken⟩ :
          ∃ token, token = freeToken s.tokens (s.tokens.length + 1) s.nextToken := ⟨_, rfl⟩
      have hbounds := token_bounds s.tokens (s.tokens.length + 1) s.nextToken h.low h.high
      simp only [← htoken] at hbounds ⊢
      have hsublist : List.Sublist
          ((s.tokens.filter (fun entry => entry.1 ≠ token) ++ [(token, submission.id)]).map
            Prod.snd ++ submissions.map Submission.id) s.held := by
        unfold held
        rw [hsubmissions, List.map_append, List.append_assoc]
        exact (List.filter_sublist.map _).append_right _
      exact ⟨h.distinct.sublist hsublist, fun id hid => h.waiting id (hsublist.subset hid),
        hbounds.1, hbounds.2⟩

/-- A token comes back: nothing else that the reactor holds has its number. -/
theorem released (h : Holding s) {entry : Int × Nat} (hentry : entry ∈ s.tokens) :
    List.Sublist ((s.tokens.filter fun other => other.1 ≠ entry.1).map Prod.snd ++
        s.queues.submissions.map Submission.id) s.held ∧
      entry.2 ∉ (s.tokens.filter fun other => other.1 ≠ entry.1).map Prod.snd ++
        s.queues.submissions.map Submission.id := by
  refine ⟨(List.filter_sublist.map _).append_right _, fun hmem => ?_⟩
  obtain ⟨before, after, htokens⟩ := List.append_of_mem hentry
  have hdistinct := h.distinct
  rw [held, htokens, List.map_append, List.map_cons, List.append_assoc, List.cons_append,
    List.nodup_middle, List.nodup_cons] at hdistinct
  refine hdistinct.1 ?_
  rcases List.mem_append.mp hmem with hmem | hmem
  · obtain ⟨other, hother, heq⟩ := List.mem_map.mp hmem
    rw [List.mem_filter, htokens, List.mem_append, List.mem_cons, decide_eq_true_eq] at hother
    rw [← heq]
    rcases hother with ⟨hbefore | rfl | hafter, hne⟩
    · exact List.mem_append_left _ (List.mem_map_of_mem hbefore)
    · exact absurd rfl hne
    · exact List.mem_append_right _ (List.mem_append_left _ (List.mem_map_of_mem hafter))
  · exact List.mem_append_right _ (List.mem_append_right _ hmem)

theorem collectOne (h : Holding s) (hsound : Sound capacity s) (output : Output) :
    Holding (s.collectOne capacity output) := by
  cases output with
  | indication indication =>
      obtain ⟨outputs, deferred, heq, -⟩ :=
        push_cases hsound.queues.filled (.indication indication)
      simp only [System.collectOne, heq]
      exact ⟨h.distinct, h.waiting, h.low, h.high⟩
  | response serial error value =>
      cases hfind : s.tokens.find? fun entry => entry.1 = serial with
      | none =>
          simp only [System.collectOne, hfind]
          exact h
      | some entry =>
          obtain rfl : entry.1 = serial := by simpa using List.find?_some hfind
          obtain ⟨hsublist, hother⟩ := h.released (List.mem_of_find?_eq_some hfind)
          obtain ⟨-, haccepted, hsubmissions, -⟩ :=
            response_cases hsound.queues entry.2 error value
          simp only [System.collectOne, hfind]
          refine ⟨?_, ?_, h.low, h.high⟩
          · simp only [held, hsubmissions]
            exact h.distinct.sublist hsublist
          · intro id hid
            simp only [held, hsubmissions] at hid
            have hwaiting := h.waiting id (hsublist.subset hid)
            have hne : id ≠ entry.2 := by
              rintro rfl
              exact hother hid
            obtain ⟨pair, hpair, rfl⟩ := List.mem_map.mp hwaiting
            simp only [haccepted]
            exact List.mem_map_of_mem (List.mem_filter.mpr ⟨hpair, by simpa using hne⟩)

theorem collect (outputs : List Output) (h : Holding s) (hsound : Sound capacity s)
    (hrun : s.running = true) : Holding (s.collect capacity outputs) := by
  induction outputs generalizing s with
  | nil => exact h
  | cons output outputs ih =>
      obtain ⟨hnext, hrun⟩ := hsound.collectOne hrun output
      exact ih (h.collectOne hsound output) hnext hrun

theorem submit (h : Holding s) (hsound : Sound capacity s) {invocation : Nat} {request : Request}
    {q : Queues} (hsubmit : s.queues.submit s.stopped invocation request = .ok q) :
    Holding { s with queues := q } := by
  unfold Queues.submit at hsubmit
  split at hsubmit
  · cases hsubmit
  split at hsubmit
  · cases hsubmit
  split at hsubmit
  · cases hsubmit
  rename_i id hid
  cases hsubmit
  have hid : id = s.queues.nextId + 1 := checkedAdd_eq hid
  have hfresh : id ∉ s.held := by
    intro hmem
    obtain ⟨pair, hpair, heq⟩ := List.mem_map.mp (h.waiting id hmem)
    have hle := hsound.queues.numbered pair
      (hsound.queues.ledger.symm.subset (List.mem_append_left _ hpair))
    omega
  have hheld : System.held { s with queues :=
      { s.queues with
        nextId := id
        accepted := s.queues.accepted ++ [(id, invocation)]
        submissions := s.queues.submissions ++ [⟨id, request⟩]
        outstanding := s.queues.outstanding + 1
        submitted := s.queues.submitted ++ [(id, invocation)] } } = s.held ++ [id] := by
    simp [held]
  refine ⟨?_, ?_, h.low, h.high⟩
  · rw [hheld]
    refine List.nodup_append.mpr ⟨h.distinct, List.nodup_singleton _, ?_⟩
    intro number hnumber other hother
    rw [List.mem_singleton.mp hother]
    rintro rfl
    exact hfresh hnumber
  · intro number hnumber
    rw [hheld] at hnumber
    change number ∈ (s.queues.accepted ++ [(id, invocation)]).map Prod.fst
    rw [List.map_append]
    rcases List.mem_append.mp hnumber with hnumber | hnumber
    · exact List.mem_append_left _ (h.waiting number hnumber)
    · exact List.mem_append_right _ hnumber

theorem next (h : Holding s) (hsound : Sound capacity s) {act : Act} (allowed : act.Allowed s)
    (hrun : s.running = true) : Holding (s.next capacity act) := by
  cases act with
  | submit invocation request =>
      cases hsubmit : s.queues.submit s.stopped invocation request with
      | error error =>
          simp only [System.next, hsubmit]
          exact h
      | ok q =>
          simp only [System.next, hsubmit]
          exact h.submit hsound hsubmit
  | wakeFailed => exact ⟨h.distinct, h.waiting, h.low, h.high⟩
  | stop => exact ⟨h.distinct, h.waiting, h.low, h.high⟩
  | nextBatchWait timedOut =>
      simp only [System.next]
      obtain ⟨heq, -⟩ | ⟨heq, -⟩ | ⟨outputs, deferred, heq, -⟩ :=
        nextBatchWait_cases capacity s.queues timedOut <;>
        · rw [heq]
          exact ⟨h.distinct, h.waiting, h.low, h.high⟩
  | take => exact h.take
  | collect outputs => exact h.collect outputs hsound hrun
  | reactorEnds => exact ⟨h.distinct, h.waiting, h.low, h.high⟩
  | finish =>
      rw [allowed.1] at hrun
      cases hrun

end Holding

/-- A reactor that has ended does not run again. -/
theorem running_of_next {act : Act} (allowed : act.Allowed s)
    (hrun : (s.next capacity act).running = true) : s.running = true := by
  cases act with
  | submit invocation request =>
      unfold next at hrun
      cases hsubmit : s.queues.submit s.stopped invocation request <;>
        · simp only [hsubmit] at hrun
          exact hrun
  | take => exact allowed
  | collect outputs => exact allowed
  | reactorEnds => exact allowed
  | wakeFailed => exact hrun
  | stop => exact hrun
  | nextBatchWait timedOut => exact hrun
  | finish => exact hrun

theorem Holding.of_reach (h : Reach capacity s) (hrun : s.running = true) : Holding s := by
  induction h with
  | start hstart =>
      unfold start at hstart
      split at hstart
      · cases hstart
      cases hstart
      exact ⟨List.nodup_nil, fun _ hmem => absurd hmem List.not_mem_nil, by decide, by decide⟩
  | step h act allowed ih =>
      have hbefore := running_of_next allowed hrun
      exact (ih hbefore).next (Sound.of_reach h).2 allowed hbefore

/-- **A token is free when it is given out**: the loop of the reactor ends, and no submission
that the core still works on has the new serial. -/
theorem take_free (h : Reach capacity s) (hrun : s.running = true) :
    freeToken s.tokens (s.tokens.length + 1) s.nextToken ∉ s.tokens.map Prod.fst := by
  have hholding := Holding.of_reach h hrun
  exact freeToken_free s.tokens s.nextToken (hholding.few (Sound.of_reach h).2) hholding.low
    hholding.high

end System

end Mindone.Radio.Runtime
