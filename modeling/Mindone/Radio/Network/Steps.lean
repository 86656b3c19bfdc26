import Mathlib.Algebra.Ring.Nat
import Mindone.Radio.Network.Service

/-!
# Mindone.Radio.Network.Steps

The loop of `start_control` (`startControl`): what each of its turns keeps, the loop keeps
(`startControl_keeps`), and **it never ends for want of turns** (`start_done`): a turn takes a
filter, a job or a step away, or the fallback of a step.

What the service tells of the modem's state are lines that it was answered with (`onEvent_updates`).
-/

set_option linter.dupNamespace false

namespace Mindone.Radio.Network

open At (Channels)
open State (Policy)

/-! ### Responses -/

/-- The response to a serial. -/
def reply (result : Except RadioError Value) (serial : Int) : Response :=
  match result with
  | .ok value => ⟨serial, .none, some value⟩
  | .error error => ⟨serial, error, none⟩

@[simp] theorem reply_serial (result : Except RadioError Value) (serial : Int) :
    (reply result serial).serial = serial := by
  cases result <;> rfl

namespace Network

variable (n : Network)

theorem respond_eq (serial : Int) (result : Except RadioError Value) :
    n.respond serial result = { n with responses := n.responses ++ [reply result serial] } := rfl

/-- Only the responses change. -/
theorem respondAll_eq (serials : List Int) (result : Except RadioError Value) :
    n.respondAll serials result =
      { n with responses := n.responses ++ serials.map (reply result) } := by
  unfold respondAll
  induction serials generalizing n with
  | nil => simp
  | cons serial rest ih =>
      rw [List.foldl_cons, ih, respond_eq]
      simp

/-! ### The loop -/

/-- **What each turn keeps, the loop keeps.** -/
theorem startControl_keeps {P : Network → Channels → Prop}
    (hfilter : ∀ n c job filters, P n c → n.controls = [] → n.filters = job :: filters →
      P (n.startFilter job filters) c)
    (hfinish : ∀ n c job jobs, P n c → n.controls = job :: jobs → job.active = none →
      job.steps = [] → P (n.finishJob job jobs c).1 (n.finishJob job jobs c).2)
    (hstep : ∀ n c job jobs next steps, P n c → n.controls = job :: jobs → job.active = none →
      job.steps = next :: steps →
      P (n.startStep job jobs next steps c).1 (n.startStep job jobs next steps c).2)
    (turns : Nat) {n : Network} {c : Channels} (h : P n c) :
    P (startControl turns n c).1 (startControl turns n c).2 := by
  induction turns generalizing n c with
  | zero => exact h
  | succ turns ih =>
      unfold startControl
      split
      · rename_i hcontrols
        split
        · exact h
        · rename_i job filters hfilters
          exact ih (hfilter n c job filters h hcontrols hfilters)
      · rename_i job jobs hcontrols
        split
        · exact h
        · rename_i hactive
          have hnone : job.active = none := by simpa using hactive
          split
          · rename_i hsteps
            exact ih (hfinish n c job jobs h hcontrols hnone hsteps)
          · rename_i next steps hsteps
            exact ih (hstep n c job jobs next steps h hcontrols hnone hsteps)

/-- Where the loop ends: nothing is left to start, or a command is under way. -/
def Done (n : Network) : Prop :=
  (n.controls = [] ∧ n.filters = []) ∨ ∃ job jobs, n.controls = job :: jobs ∧ job.active.isSome

/-! ### Every turn takes something away -/

/-- What the jobs still have to do. -/
def work (jobs : List ControlJob) : Nat := (jobs.map fun job => 1 + job.steps.length).sum

/-- The steps of the policy that have a fallback. -/
def fallbacks (pending : List State.Step) : Nat :=
  (pending.filter fun step => step.fallbackOnError.isSome).length

theorem turns_eq : n.turns = 20 * n.filters.length + work n.controls + fallbacks n.policy.pending + 1 :=
  rfl

/-- At most four controls are missing, of which at most two have a fallback. -/
theorem reconcile_small (policy : Policy) (input : State.Input) :
    fallbacks (policy.reconcile input).2.pending ≤ fallbacks policy.pending + 4 ∧
      ∀ steps, (policy.reconcile input).1 = .ok steps → steps.length ≤ 4 := by
  have hlength : ∀ id controls, (Policy.stepsFrom id controls).length = controls.length := by
    intro id controls
    induction controls generalizing id with
    | nil => rfl
    | cons first rest ih => simp [Policy.stepsFrom, ih]
  have hmissing : (policy.missing input).length ≤ 4 := List.length_filter_le ..
  unfold Policy.reconcile
  dsimp only
  split
  · exact ⟨Nat.le_add_right .., fun steps hsteps => by cases hsteps; exact Nat.zero_le _⟩
  split
  · exact ⟨Nat.le_add_right .., nofun⟩
  · have hsmall : (Policy.stepsFrom policy.nextId (policy.missing input)).length ≤ 4 := by
      rw [hlength]
      exact hmissing
    refine ⟨?_, fun steps hsteps => by cases hsteps; exact hsmall⟩
    exact Nat.le_trans (List.length_filter_le ..) (Nat.le_trans hsmall (Nat.le_add_left ..))

/-- Starting a filter is a turn of the loop. -/
theorem startFilter_turns {job : FilterJob} {filters : List FilterJob}
    (hcontrols : n.controls = []) (hfilters : n.filters = job :: filters) :
    (n.startFilter job filters).turns < n.turns := by
  obtain ⟨hpending, hsteps⟩ := reconcile_small n.policy ⟨job.filter⟩
  rw [turns_eq, turns_eq, hcontrols, hfilters]
  unfold startFilter
  cases hresult : n.policy.reconcile ⟨job.filter⟩ with
  | mk result policy =>
  rw [hresult] at hpending hsteps
  cases result with
  | error error =>
      dsimp only at hpending ⊢
      rw [respondAll_eq, hcontrols]
      simp only [List.length_cons, work, List.map_nil, List.sum_nil]
      omega
  | ok steps =>
      have hsmall := hsteps steps rfl
      dsimp only at hpending ⊢
      simp only [List.length_cons, work, filterJob, List.map_cons, List.map_nil, List.sum_cons,
        List.sum_nil, List.length_map]
      omega

/-- A read changes neither jobs nor filters nor the policy. -/
theorem read_jobs (serial : Option Int) (kind : Read) (deadline : Nat) (c : Channels) :
    (n.read serial kind deadline c).1.controls = n.controls ∧
      (n.read serial kind deadline c).1.filters = n.filters ∧
      (n.read serial kind deadline c).1.policy = n.policy := by
  unfold read
  split
  · exact ⟨rfl, rfl, rfl⟩
  · dsimp only
    split
    · exact ⟨rfl, rfl, rfl⟩
    · rw [respondAll_eq]
      exact ⟨rfl, rfl, rfl⟩

theorem finishJob_jobs (job : ControlJob) (jobs : List ControlJob) (c : Channels) :
    (n.finishJob job jobs c).1.controls = jobs ∧ (n.finishJob job jobs c).1.filters = n.filters ∧
      (n.finishJob job jobs c).1.policy = n.policy := by
  unfold finishJob
  dsimp only
  rw [respondAll_eq]
  split
  · exact read_jobs _ ..
  · exact ⟨rfl, rfl, rfl⟩

theorem finishJob_turns {job : ControlJob} {jobs : List ControlJob} (c : Channels)
    (hcontrols : n.controls = job :: jobs) (hsteps : job.steps = []) :
    (n.finishJob job jobs c).1.turns < n.turns := by
  obtain ⟨hjobs, hfilters, hpolicy⟩ := n.finishJob_jobs job jobs c
  rw [turns_eq, turns_eq, hjobs, hfilters, hpolicy, hcontrols]
  simp only [work, List.map_cons, List.sum_cons, hsteps, List.length_nil]
  omega

/-- A step that failed goes, or its fallback comes, which has none. -/
theorem complete_small (policy : Policy) (id : Nat) (success : Bool) :
    fallbacks (policy.complete id success).2.pending ≤ fallbacks policy.pending ∧
      ∀ step, (policy.complete id success).1 = .ok (some step) →
        fallbacks (policy.complete id success).2.pending + 1 ≤ fallbacks policy.pending := by
  unfold Policy.complete
  split
  · exact ⟨Nat.le_refl _, nofun⟩
  · rename_i step rest hpending
    have hcons : fallbacks policy.pending = fallbacks rest + if step.fallbackOnError.isSome then 1 else 0 := by
      rw [hpending]
      unfold fallbacks
      split <;> simp_all
    split
    · exact ⟨Nat.le_refl _, nofun⟩
    split
    · exact ⟨by dsimp only; omega, nofun⟩
    split
    · exact ⟨by dsimp only; omega, nofun⟩
    · rename_i command hcommand
      split
      · exact ⟨Nat.le_refl _, nofun⟩
      · rw [hcommand] at hcons
        have hrest : ∀ next : State.Step, next.fallbackOnError = none →
            fallbacks (next :: rest) = fallbacks rest := by
          intro next hnext
          simp [fallbacks, hnext]
        refine ⟨?_, fun _ _ => ?_⟩ <;> rw [hrest _ rfl] <;> simp at hcons <;> omega

/-- Starting a step is a turn of the loop. -/
theorem startStep_turns {job : ControlJob} {jobs : List ControlJob} {next : ControlStep}
    {steps : List ControlStep} (c : Channels) (hcontrols : n.controls = job :: jobs)
    (hsteps : job.steps = next :: steps) :
    (n.startStep job jobs next steps c).1.turns < n.turns := by
  rw [turns_eq, turns_eq, hcontrols]
  have hwork : work (job :: jobs) = 1 + (steps.length + 1) + work jobs := by
    simp [work, hsteps]
  unfold startStep
  split
  · dsimp only
    simp only [work, List.map_cons, List.sum_cons] at hwork ⊢
    omega
  · dsimp only
    split
    · simp only [work, List.map_cons, List.sum_cons] at hwork ⊢
      omega
    · rename_i step _
      obtain ⟨hle, hfallback⟩ := complete_small n.policy step.id false
      cases hresult : n.policy.complete step.id false with
      | mk result policy =>
      rw [hresult] at hle hfallback
      simp only [work, List.map_cons, List.sum_cons] at hwork ⊢
      cases result with
      | error error =>
          dsimp only at hle ⊢
          omega
      | ok fallback =>
          cases fallback with
          | none =>
              dsimp only at hle ⊢
              omega
          | some fallback =>
              have hone := hfallback fallback rfl
              dsimp only at hone ⊢
              simp only [List.length_cons]
              omega

/-- With the turns of `turns` the loop ends by itself, and more of them make no difference. -/
theorem startControl_ends {turns : Nat} {n : Network} {c : Channels} (h : n.turns ≤ turns) :
    (startControl turns n c).1.Done ∧
      ∀ more, startControl (turns + more) n c = startControl turns n c := by
  induction turns generalizing n c with
  | zero =>
      rw [turns_eq] at h
      omega
  | succ turns ih =>
      simp only [Nat.add_right_comm turns 1, startControl]
      split
      · rename_i hcontrols
        split
        · rename_i hfilters
          exact ⟨.inl ⟨hcontrols, hfilters⟩, fun _ => rfl⟩
        · rename_i job filters hfilters
          exact ih (Nat.le_of_lt_succ (Nat.lt_of_lt_of_le (n.startFilter_turns hcontrols hfilters) h))
      · rename_i job jobs hcontrols
        split
        · rename_i hactive
          exact ⟨.inr ⟨job, jobs, hcontrols, hactive⟩, fun _ => rfl⟩
        · split
          · rename_i hsteps
            exact ih (Nat.le_of_lt_succ (Nat.lt_of_lt_of_le (n.finishJob_turns c hcontrols hsteps) h))
          · rename_i next steps hsteps
            exact ih (Nat.le_of_lt_succ (Nat.lt_of_lt_of_le (n.startStep_turns c hcontrols hsteps) h))

/-- **`start_control` ends**, in every state, where no control and no filter is left to start or a
command is under way; the turns that the loop is given here are no bound of its own. -/
theorem start_done (c : Channels) :
    (n.start c).1.Done ∧ ∀ more, startControl (n.turns + more) n c = n.start c :=
  startControl_ends (Nat.le_refl _)

/-! ### Updates -/

theorem read_updates (serial : Option Int) (kind : Read) (deadline : Nat) (c : Channels) :
    (n.read serial kind deadline c).1.updates = n.updates := by
  unfold read
  split
  · rfl
  · dsimp only
    split
    · rfl
    · rw [respondAll_eq]

/-- Starting a job tells the model nothing. -/
theorem start_updates (c : Channels) : (n.start c).1.updates = n.updates := by
  refine startControl_keeps (P := fun n' _ => n'.updates = n.updates) ?_ ?_ ?_ n.turns rfl
  · intro n' c job filters h _ _
    unfold startFilter
    dsimp only
    split
    · exact h
    · rw [respondAll_eq]
      exact h
  · intro n' c job jobs h _ _ _
    unfold finishJob
    dsimp only
    rw [respondAll_eq]
    split
    · rw [read_updates]
      exact h
    · exact h
  · intro n' c job jobs next steps h _ _ _
    unfold startStep
    split
    · exact h
    · dsimp only
      split
      · exact h
      · exact h

theorem restore_updates (c : Channels) (deadline : Nat) :
    (n.restore c deadline).1.updates = n.updates := by
  unfold restore
  split
  · rfl
  · exact start_updates _ _

/-- A request tells the model nothing by itself. -/
theorem submit_updates (serial : Int) (request : Request) (deadline : Nat) (c : Channels)
    (model : State.Model) : (n.submit serial request deadline c model).1.updates = n.updates := by
  unfold submit
  split
  · rfl
  split
  · rfl
  · rfl
  · rfl
  · rfl
  · split
    · rfl
    · split <;> rfl
  · exact read_updates ..
  · exact read_updates ..
  · exact start_updates _ _
  · dsimp only
    split
    · rfl
    · exact start_updates _ _
  · rfl

theorem completeStep_updates (job : ControlJob) (jobs : List ControlJob) (step : Option State.Step)
    (error : RadioError) : (n.completeStep job jobs step error).updates = n.updates := by
  unfold completeStep
  cases step <;> rfl

/-- A read tells the model what its lines say, and nothing else. -/
theorem completeRead_updates (pending : Pending) (response : At.Response) (error : RadioError)
    (model : State.Model) :
    (n.completeRead pending response error model).updates = n.updates ∨
      (n.completeRead pending response error model).updates = n.updates ++
        (response.intermediates.filterMap State.observeLine).map fun update => (.query, update) := by
  unfold completeRead
  have hrest : ∀ (n' : Network) (serials : List Int) (result : Except RadioError Value)
      (selection : Except RadioError Value) (p : Prop) [Decidable p],
      (if p then
        ({ n'.respondAll serials result with selectionWaiters := [] }.respondAll
          (n'.respondAll serials result).selectionWaiters selection)
      else n'.respondAll serials result).updates = n'.updates := by
    intro n' serials result selection p _
    rw [respondAll_eq, respondAll_eq]
    split <;> rfl
  by_cases herror : error = .none
  · simp only [herror, ne_eq, not_true_eq_false, if_false]
    rw [hrest]
    unfold readResult
    cases pending.kind with
    | operator =>
        left
        dsimp only
        split
        · split <;> rfl
        · rfl
    | signal =>
        dsimp only
        split
        · exact .inl rfl
        · exact .inr rfl
  · left
    simp only [ne_eq, herror, not_false_eq_true, if_true]
    exact hrest ..

/-- **The service tells what lines say.** -/
theorem onEvent_updates (channel : Nat) (event : At.Event) (c : Channels) (model : State.Model) :
    ∀ update ∈ (n.onEvent channel event c model).1.updates,
      update ∈ n.updates ∨ ∃ line, State.observeLine line = some update.2 := by
  intro update hupdate
  unfold onEvent at hupdate
  split at hupdate
  · rename_i response
    dsimp only at hupdate
    split at hupdate
    · rename_i pending _
      rcases completeRead_updates
        { n with
          pending :=
            n.pending.eraseP fun pending => Pending.isOf pending channel response.id }
        pending response (responseError response) model with hold | hnew
      · rw [hold] at hupdate
        exact .inl hupdate
      · rw [hnew] at hupdate
        rcases List.mem_append.mp hupdate with hold | hnew
        · exact .inl hold
        · obtain ⟨update, hmem, rfl⟩ := List.mem_map.mp hnew
          obtain ⟨line, -, hline⟩ := List.mem_filterMap.mp hmem
          exact .inr ⟨line, hline⟩
    · split at hupdate
      · exact .inl hupdate
      · split at hupdate
        · rw [start_updates, completeStep_updates] at hupdate
          exact .inl hupdate
        · exact .inl hupdate
  · simp [reset, respondAll_eq] at hupdate
  · simp [reset, respondAll_eq] at hupdate
  · exact .inl hupdate

end Network

end Mindone.Radio.Network
