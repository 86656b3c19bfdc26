import Mathlib.Algebra.Ring.Nat
import Mindone.Radio.Runtime.SharedDelivery

/-!
# Mindone.Radio.Runtime.SharedTokens

The tokens of the reactor (`Reactor::submit`): the map from the serials that the core answers with to
the submissions of the runtime. **No entry of it is ever overwritten** (`reactor_tokens`): while the
reactor runs, the map is one between different serials and different submissions that wait for an
answer, and the loop that looks for the next serial ends at a free one, also behind `i32::MAX`.
-/

namespace Mindone.Radio.Runtime

open Mindone.Radio.Core (Output)

namespace System

variable {capacity : Nat} {s : System}

/-! ### The serials differ -/

theorem serials_take (h : (s.tokens.map Prod.fst).Nodup) : (s.take.tokens.map Prod.fst).Nodup := by
  unfold System.take
  cases s.queues.submissions with
  | nil => exact h
  | cons submission submissions =>
      dsimp only
      generalize freeToken s.tokens (s.tokens.length + 1) s.nextToken = token
      rw [List.map_append, List.map_singleton]
      refine List.nodup_append.mpr
        ⟨h.sublist (List.filter_sublist.map _), List.nodup_singleton _, ?_⟩
      intro serial hserial other hother
      rw [List.mem_singleton.mp hother]
      obtain ⟨entry, hentry, rfl⟩ := List.mem_map.mp hserial
      simpa using (List.mem_filter.mp hentry).2

theorem serials_collectOne (h : (s.tokens.map Prod.fst).Nodup) (output : Output) :
    ((s.collectOne capacity output).tokens.map Prod.fst).Nodup := by
  cases output with
  | indication indication => exact h
  | response serial error value =>
      cases hfind : s.tokens.find? fun entry => entry.1 = serial with
      | none =>
          simp only [collectOne, hfind]
          exact h
      | some entry =>
          simp only [collectOne, hfind]
          exact h.sublist (List.filter_sublist.map _)

theorem serials_collect (outputs : List Output) (h : (s.tokens.map Prod.fst).Nodup) :
    ((s.collect capacity outputs).tokens.map Prod.fst).Nodup := by
  induction outputs generalizing s with
  | nil => exact h
  | cons output outputs ih => exact ih (serials_collectOne h output)

theorem serials_next (h : (s.tokens.map Prod.fst).Nodup) (act : Act) :
    ((s.next capacity act).tokens.map Prod.fst).Nodup := by
  cases act with
  | submit invocation request =>
      unfold next
      cases hsubmit : s.queues.submit s.stopped invocation request with
      | error error =>
          simp only [hsubmit]
          exact h
      | ok queues =>
          simp only [hsubmit]
          exact h
  | take => exact serials_take h
  | collect outputs => exact serials_collect outputs h
  | wakeFailed | stop | nextBatchWait | reactorEnds | finish => exact h

theorem serials_of_reach (h : Reach capacity s) : (s.tokens.map Prod.fst).Nodup := by
  induction h with
  | start hstart =>
      unfold start at hstart
      split at hstart
      · cases hstart
      cases hstart
      exact List.nodup_nil
  | step h act allowed ih => exact serials_next ih act

/-! ### The next serial -/

theorem freeToken_pos (tokens : List (Int × Nat)) (fuel : Nat) (token : Int) (hpos : 0 < token) :
    0 < freeToken tokens fuel token := by
  induction fuel generalizing token with
  | zero => exact hpos
  | succ fuel ih =>
      have hnext : 0 < (if token = i32Max then 1 else token + 1) := by
        split <;> omega
      simp only [freeToken]
      generalize (if token = i32Max then 1 else token + 1) = next at hnext
      split
      · exact ih next hnext
      · exact hnext

theorem freeToken_succ_pos (tokens : List (Int × Nat)) (fuel : Nat) (token : Int) (hlow : 0 ≤ token) :
    0 < freeToken tokens (fuel + 1) token := by
  have hnext : 0 < (if token = i32Max then 1 else token + 1) := by
    split <;> omega
  simp only [freeToken]
  generalize (if token = i32Max then 1 else token + 1) = next at hnext
  split
  · exact freeToken_pos tokens fuel next hnext
  · exact hnext

/-- **No token is overwritten**: different serials for different submissions that wait for an answer,
and a submission that the reactor takes gets a serial that is free. -/
theorem reactor_tokens (h : Reach capacity s) (hrun : s.running = true) :
    (s.tokens.map Prod.fst).Nodup ∧ (s.tokens.map Prod.snd).Nodup ∧
      (∀ entry ∈ s.tokens, entry.2 ∈ s.queues.accepted.map Prod.fst) ∧
      ∀ submission rest, s.queues.submissions = submission :: rest →
        ∃ serial, 0 < serial ∧ serial ≤ i32Max ∧ serial ∉ s.tokens.map Prod.fst ∧
          submission.id ∉ s.tokens.map Prod.snd ∧
          s.take.tokens = s.tokens ++ [(serial, submission.id)] := by
  have hholding := Holding.of_reach h hrun
  refine ⟨serials_of_reach h, (List.nodup_append.mp hholding.distinct).1, ?_, ?_⟩
  · intro entry hentry
    exact hholding.waiting entry.2 (List.mem_append_left _ (List.mem_map_of_mem hentry))
  · intro submission rest hsubmissions
    have hfree := take_free h hrun
    have hpos := freeToken_succ_pos s.tokens s.tokens.length s.nextToken hholding.low
    have hbounds := Holding.token_bounds s.tokens (s.tokens.length + 1) s.nextToken hholding.low
      hholding.high
    have htake : s.take.tokens = s.tokens.filter
        (fun entry => entry.1 ≠ freeToken s.tokens (s.tokens.length + 1) s.nextToken) ++
          [(freeToken s.tokens (s.tokens.length + 1) s.nextToken, submission.id)] := by
      unfold System.take
      rw [hsubmissions]
    generalize freeToken s.tokens (s.tokens.length + 1) s.nextToken = serial at *
    refine ⟨serial, hpos, hbounds.2, hfree, ?_, ?_⟩
    · -- what the reactor holds is different, whether it has a token or waits for one
      have hdistinct := (List.nodup_append.mp hholding.distinct).2.2
      intro hmem
      exact hdistinct submission.id hmem submission.id (by simp [hsubmissions]) rfl
    · rw [htake, List.filter_eq_self.mpr]
      intro entry hentry
      refine decide_eq_true ?_
      rintro rfl
      exact hfree (List.mem_map_of_mem hentry)

/-- One submission has its serial, and the next one waits for the reactor. -/
def oneSubmitted : List Act :=
  [.submit 5 (.network .getSignalStrength), .take, .submit 6 (.network .getSignalStrength)]

theorem reactor_tokens_oneSubmitted :
    ∃ s, Reach 8 s ∧ s.tokens = [(1, 1)] ∧
      ∃ serial, 0 < serial ∧ serial ≤ i32Max ∧ serial ≠ 1 ∧
        s.take.tokens = [(1, 1), (serial, 2)] := by
  have hfollows : Follows 8 ⟨.new, false, true, [], 0⟩ oneSubmitted := by decide
  have hreach : Reach 8 (oneSubmitted.foldl (System.next 8) ⟨.new, false, true, [], 0⟩) :=
    (Reach.start (rfl : System.start 8 = _)).of_script _ hfollows
  obtain ⟨serial, hpos, hmax, hfree, -, htake⟩ := (reactor_tokens hreach rfl).2.2.2 _ _ rfl
  refine ⟨_, hreach, rfl, serial, hpos, hmax, fun hone => ?_, htake⟩
  subst hone
  exact hfree (by decide)

end System

end Mindone.Radio.Runtime
