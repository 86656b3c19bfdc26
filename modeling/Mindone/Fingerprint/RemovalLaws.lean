import Mathlib.Algebra.Ring.Nat
import Mindone.Fingerprint.RemovalRuns

/-!
# Mindone.Fingerprint.RemovalLaws

The laws of the batch of removals, from the invariants of its runs: the calls of `remove` and the
completions of a batch in every interleaving (`Laws`), with **a bound on the worker's steps**, so that
a batch whose answers come is completed. The one law that asks for more is that no completion comes
after `cancel` has returned.
-/

namespace Mindone.Fingerprint.Removal

/-! ### The worker comes to an end -/

/-- The steps the worker has in front of it before it looks at the batch again, with room for what
comes then. -/
def Place.rank (active : Bool) : Place → Nat
  | .waiting => if active then 3 else 0
  | .captured _ _ _ => 2
  | .dispatching _ _ _ => 1
  | .removing _ _ _ => 5
  | .inRemove _ => 4
  | .completing _ _ => 5
  | .inComplete => 4

/-- The positions that no removal was made for. -/
def State.left (s : State) : Nat := s.pending.length - (s.index + if s.waiting then 1 else 0)

def State.ahead (s : State) : Nat := if s.active then 5 * s.left + 5 else 0

/-- A bound on the steps of the worker. -/
def State.rank (s : State) : Nat := s.ahead + s.place.rank s.active

def Act.isWorker : Act → Bool
  | .wake | .dispatch | .recheck | .callRemove | .removeReturned _ | .callComplete
  | .completeReturned => true
  | _ => false

/-- What a call adds to the bound. -/
def Act.grant : Act → Nat
  | .start ids => 5 * ids.length + 8
  | _ => 0

/-- The steps of a run, one after another. -/
def State.run (s : State) : List Act → Option State
  | [] => some s
  | act :: acts => (s.step act).bind fun s' => s'.run acts

theorem rank_top_lt {s : State} (hle : s.active = true → s.index ≤ s.pending.length)
    (hactive : s.active = true) (hwaiting : s.waiting = false) : s.top.rank < s.ahead + 3 := by
  simp only [State.top, hactive, hwaiting, Bool.not_false, Bool.and_self, if_true]
  split
  next => simp [State.take, State.rank, State.ahead, Place.rank, hactive]
  next hindex =>
    have hlen : s.index < s.pending.length := Nat.lt_of_le_of_ne (hle hactive) hindex
    rw [List.getElem?_eq_getElem hlen]
    simp [State.rank, State.ahead, State.left, Place.rank, hactive, hwaiting]

theorem rank_top_le {s : State} (hle : s.active = true → s.index ≤ s.pending.length) :
    s.top.rank ≤ s.ahead + 3 := by
  by_cases hready : s.active = true ∧ s.waiting = false
  · exact Nat.le_of_lt (rank_top_lt hle hready.1 hready.2)
  · have hidle : (s.active && !s.waiting) = false := by
      cases ha : s.active <;> cases hw : s.waiting <;> simp_all
    simp only [State.top, hidle, Bool.false_eq_true, if_false, State.rank, Place.rank]
    split
    · exact Nat.le_refl _
    · exact Nat.le_add_right _ 3

/-- **A step of the worker brings the bound down.** -/
theorem rank_worker {s s' : State} {act : Act} (hc : Control s) (hstep : s.step act = some s')
    (hworker : act.isWorker = true) : s'.rank < s.rank := by
  have hplace := hc.place
  cases act with
  | start | result | fail | cancelDispatch | cancel => simp [Act.isWorker] at hworker
  | wake =>
      simp only [State.step, Option.ite_none_right_eq_some, Option.some.injEq] at hstep
      obtain ⟨⟨hp, hactive, hwaiting⟩, rfl⟩ := hstep
      have hlt := rank_top_lt hc.le hactive (by simpa using hwaiting)
      simpa [State.rank, hp, Place.rank, hactive] using hlt
  | dispatch =>
      cases hp : s.place <;> simp only [State.step, hp, reduceCtorEq] at hstep
      simp only [Option.ite_none_right_eq_some, Option.some.injEq] at hstep
      obtain ⟨-, rfl⟩ := hstep
      simp [State.rank, State.ahead, State.left, hp, Place.rank]
  | recheck =>
      cases hp : s.place <;> simp only [State.step, hp, reduceCtorEq, Option.some.injEq] at hstep
      subst hstep
      simp only [State.PlaceOk, hp] at hplace
      obtain ⟨-, hwaiting, -, hcaptured⟩ := hplace
      simp only [State.recheck]
      split
      next hstale =>
        cases hactive : s.active with
        | false => simp [State.top, State.rank, State.ahead, Place.rank, hactive, hp]
        | true =>
            -- the batch has failed, so its completion comes next
            obtain ⟨-, -, hindex⟩ := hcaptured hactive
            simp only [hactive, Bool.not_true, Bool.false_or, bne_iff_ne] at hstale
            have hfailed := hindex.resolve_left hstale
            simp [State.top, State.take, State.rank, State.ahead, Place.rank, hactive, hwaiting,
              hfailed, hp]
      next hready =>
        simp only [bne_iff_ne, ne_eq, Bool.or_eq_true, Bool.not_eq_true', not_or,
          Bool.not_eq_false, not_not] at hready
        obtain ⟨hactive, rfl⟩ := hready
        have hlen := (List.getElem?_eq_some_iff.mp (hcaptured hactive).2.1).1
        simp [State.rank, State.ahead, State.left, Place.rank, hactive, hwaiting, hp]
        omega
  | callRemove =>
      cases hp : s.place <;> simp only [State.step, hp, reduceCtorEq, Option.some.injEq] at hstep
      subst hstep
      simp only [State.PlaceOk, hp] at hplace
      obtain ⟨-, -, rfl, -⟩ := hplace
      have hrank : s.rank = s.ahead + 5 := by simp [State.rank, hp, Place.rank]
      rw [hrank]
      exact Nat.lt_succ_self (s.ahead + 4)
  | removeReturned accepted =>
      cases hp : s.place <;> simp only [State.step, hp, reduceCtorEq, Option.some.injEq] at hstep
      subst hstep
      have hrank : s.rank = s.ahead + 4 := by simp [State.rank, hp, Place.rank]
      rw [hrank, State.removeReturned]
      split
      next hrejected =>
        simp only [Bool.and_eq_true, beq_iff_eq] at hrejected
        obtain ⟨⟨⟨hactive, hwaiting⟩, -⟩, -⟩ := hrejected
        have hahead : s.resolve.ahead = s.ahead := by
          simp [State.ahead, State.left, State.resolve, hactive, hwaiting]
        have hle := rank_top_le (s := { s.resolve with holder := .nobody })
          fun _ => hc.lt hactive hwaiting
        exact hahead ▸ Nat.lt_succ_of_le hle
      next => exact Nat.lt_succ_of_le (rank_top_le (s := { s with holder := .nobody }) hc.le)
  | callComplete =>
      cases hp : s.place <;> simp only [State.step, hp, reduceCtorEq, Option.some.injEq] at hstep
      subst hstep
      simp only [State.PlaceOk, hp] at hplace
      obtain ⟨-, batch, rfl⟩ := hplace
      have hrank : s.rank = s.ahead + 5 := by simp [State.rank, hp, Place.rank]
      rw [hrank]
      exact Nat.lt_succ_self (s.ahead + 4)
  | completeReturned =>
      cases hp : s.place <;> simp only [State.step, hp, reduceCtorEq, Option.some.injEq] at hstep
      subst hstep
      simp only [State.rank, hp, Place.rank]
      exact Nat.lt_succ_of_le (rank_top_le hc.le)

/-- The position that is answered was counted as done when its removal was made. -/
theorem rank_result (s : State) (id : Int) (remaining : Nat) :
    (s.result id remaining).rank = s.rank := by
  simp only [State.result, State.push_eq]
  split
  next => rfl
  next hready =>
    simp only [State.note, Bool.or_eq_true, Bool.not_eq_true', not_or, Bool.not_eq_false] at hready
    obtain ⟨hactive, hwaiting⟩ := hready
    split
    next => rfl
    next =>
      split
      next => rfl
      next =>
        split
        next => rfl
        next =>
          simp [State.resolve, State.note, State.rank, State.ahead, State.left, hactive, hwaiting]

/-- The other steps add to the bound what a `start` grants. -/
theorem rank_step {s s' : State} {act : Act} (hc : Control s) (hstep : s.step act = some s') :
    s'.rank + (if act.isWorker then 1 else 0) ≤ s.rank + act.grant := by
  cases hworker : act.isWorker with
  | true =>
      -- The worker's steps each lower the bound.
      have hlt := rank_worker hc hstep hworker
      simp only [if_true]
      omega
  | false =>
      cases act with
      | wake | dispatch | recheck | callRemove | removeReturned | callComplete | completeReturned =>
          simp [Act.isWorker] at hworker
      -- A start grants what its batch will need, and is ignored while one runs.
      | start ids =>
          cases hstep
          simp only [State.start]
          split
          next => exact Nat.le_add_right _ _
          next hidle =>
            simp only [Bool.or_eq_true, not_or, Bool.not_eq_true] at hidle
            cases hp : s.place <;>
              simp [State.begin_, State.rank, State.ahead, State.left, Place.rank, Act.grant, hidle.1,
                hp] <;> omega
      | result id remaining =>
          cases hstep
          exact Nat.le_of_eq (rank_result s id remaining)
      | fail =>
          cases hstep
          simp only [State.fail]
          split
          next => exact Nat.le_refl _
          next hactive =>
            simp only [Bool.not_eq_true', Bool.not_eq_false] at hactive
            simp [State.rank, State.ahead, State.left, hactive, Act.grant]
      | cancelDispatch =>
          simp only [State.step, Option.ite_none_right_eq_some, Option.some.injEq] at hstep
          obtain ⟨-, rfl⟩ := hstep
          exact Nat.le_refl _
      | cancel =>
          simp only [State.step, Option.ite_none_right_eq_some, Option.some.injEq] at hstep
          obtain ⟨-, rfl⟩ := hstep
          cases hp : s.place <;>
            simp [State.cancel, State.rank, State.ahead, Place.rank, hp] <;> omega

/-! ### The laws -/

structure Inv (s : State) : Prop where
  fates : Fates s
  books : Books s
  calls : Calls s
  order : Order s
  reports : Reports s
  silence : Silence s

theorem inv_new : Inv .new where
  fates := fates_new
  books := ⟨by simp [State.new], by simp [State.new], by simp [State.new],
    fun batch hpos hle => absurd hle (Nat.not_le.mpr hpos), by simp [State.new], by simp [State.new]⟩
  calls := ⟨by simp [State.new], by simp [State.new]⟩
  order := ⟨Lib.each_nil, by simp [State.new], by simp [State.new]⟩
  reports := ⟨by simp [State.new], by simp [State.new], by simp [State.new]⟩
  silence := ⟨by simp [State.new], Lib.each_nil⟩

variable {allowed : State → Prop}

theorem Inv.move {s s' : State} (hc : Control s) (h : Inv s) (hmove : Move allowed s s') :
    Inv s' where
  fates := h.fates.move hc hmove
  books := h.books.move hc h.fates hmove
  calls := h.calls.move hc h.fates h.books hmove
  order := h.order.move hc hmove
  reports := h.reports.move hc h.fates h.books hmove
  silence := h.silence.move hc hmove

/-- **The invariants hold in every state that is reached.** -/
theorem Reach.inv {s : State} (h : Reach s) : Control s ∧ Inv s :=
  h.invariant (fun _ _ => trivial) inv_new fun _ _ hc hi (hmove : Move (fun _ => True) _ _) =>
    hi.move hc hmove

/-- The worker has come to rest: neither it nor a `cancel` that holds `dispatch_` can go on. -/
def State.AtRest (s : State) : Prop :=
  s.step .cancel = none ∧ ∀ act : Act, act.isWorker = true → s.step act = none

/-- **What holds in every interleaving.** -/
structure Laws (s : State) : Prop where
  /-- No read of `pending_` is out of range. -/
  inRange : s.fault = false
  /-- A batch is not started while another is active. -/
  refused : s.active = true → ∀ ids, s.start ids = s.note .refused
  /-- A batch has one list of ids. -/
  started : ∀ batch ids ids', .started batch ids ∈ s.log → .started batch ids' ∈ s.log → ids = ids'
  /-- `remove` is called for the first positions of a batch, once each and in their order. -/
  calls : ∀ batch ids, .started batch ids ∈ s.log →
    ∃ position ≤ ids.length, calls batch s.log = (ids.take position).zipIdx
  /-- It is called for a position when the one before it is resolved. -/
  order : InOrder s.log
  /-- Nothing is removed for, or completes, a batch that was not started. -/
  known : ∀ batch, (∀ ids, .started batch ids ∉ s.log) →
    Removal.calls batch s.log = [] ∧ completions batch s.log = 0
  /-- A batch is completed at most once, and not if it was dropped. -/
  once : ∀ batch, completions batch s.log + drops batch s.log ≤ 1
  /-- With the worker at rest, a batch that was not dropped is completed, or an answer of it is
  awaited. -/
  settled : s.AtRest → ∀ batch ids, .started batch ids ∈ s.log → drops batch s.log = 0 →
    completions batch s.log = 1 ∨ s.active = true ∧ s.batch = batch ∧ s.waiting = true
  /-- The worker comes to rest: its steps are bounded by what the starts of a run grant. -/
  bounded : ∀ acts s', s.run acts = some s' →
    s'.rank + acts.countP Act.isWorker ≤ s.rank + (acts.map Act.grant).sum
  /-- A batch is completed with the ids that were reported for their own positions, in their order. -/
  reports : ∀ batch ids removed, .started batch ids ∈ s.log → .complete batch removed ∈ s.log →
    removed = reports batch ids s.log
  /-- Nothing is removed after `cancel` has returned. -/
  silent : SilentFor Event.IsRemove s.log

/-- A worker at rest waits, and the batch has nothing for it. -/
theorem State.AtRest.waits {s : State} (h : s.AtRest) (hc : Control s) :
    s.place = .waiting ∧ (s.active = true → s.waiting = true) := by
  obtain ⟨hcancel, hworker⟩ := h
  have hplace := hc.place
  cases hp : s.place with
  | waiting =>
      refine ⟨rfl, fun hactive => ?_⟩
      have hwake := hworker .wake rfl
      simpa [State.step, hp, hactive] using hwake
  | captured =>
      -- `dispatch_` is held by a `cancel`, which can go on
      have hdispatch := hworker .dispatch rfl
      simp only [State.PlaceOk, hp] at hplace
      cases hholder : s.holder <;> simp_all [State.step]
  | dispatching => exact absurd (hworker .recheck rfl) (by simp [State.step, hp])
  | removing => exact absurd (hworker .callRemove rfl) (by simp [State.step, hp])
  | inRemove => exact absurd (hworker (.removeReturned true) rfl) (by simp [State.step, hp])
  | completing => exact absurd (hworker .callComplete rfl) (by simp [State.step, hp])
  | inComplete => exact absurd (hworker .completeReturned rfl) (by simp [State.step, hp])

/-- Nothing is done for a batch that was not started. -/
theorem Inv.known {s : State} (h : Inv s) {batch : Nat} (hnew : ∀ ids, .started batch ids ∉ s.log) :
    Removal.calls batch s.log = [] ∧ completions batch s.log = 0 := by
  have hrange : ¬ (1 ≤ batch ∧ batch ≤ s.batch) := by
    rintro ⟨hpos, hle⟩
    obtain ⟨ids, hmem⟩ := h.books.all batch hpos hle
    exact hnew ids hmem
  constructor
  · refine List.filterMap_eq_nil_iff.mpr fun event hmem => ?_
    cases event with
    | remove of index id =>
        have hne : of ≠ batch := by
          rintro rfl
          exact hrange ⟨h.books.removes of index id hmem, h.books.bound _ hmem⟩
        simp [Event.call, hne]
    | _ => rfl
  · have hfate := h.fates batch
    rw [owed, if_neg hrange] at hfate
    omega

theorem Inv.settled {s : State} (hc : Control s) (h : Inv s) (hrest : s.AtRest) {batch : Nat}
    {ids : List Int} (hmem : .started batch ids ∈ s.log) (hdrops : drops batch s.log = 0) :
    completions batch s.log = 1 ∨ s.active = true ∧ s.batch = batch ∧ s.waiting = true := by
  obtain ⟨hp, hwaiting⟩ := hrest.waits hc
  have hfate := h.fates batch
  rw [owed, if_pos ⟨h.books.first batch ids hmem, h.books.bound _ hmem⟩, hp, hdrops] at hfate
  simp only [State.open_, Place.inHands] at hfate
  split at hfate
  next hopen =>
    simp only [Bool.and_eq_true, beq_iff_eq] at hopen
    exact .inr ⟨hopen.1, hopen.2, hwaiting hopen.1⟩
  next => exact .inl (by omega)

theorem Reach.step {s s' : State} {act : Act} (h : Reach s) (hstep : s.step act = some s') :
    Reach s' :=
  ReachWith.step h trivial hstep

theorem Reach.bounded {s s' : State} {acts : List Act} (h : Reach s) (hrun : s.run acts = some s') :
    s'.rank + acts.countP Act.isWorker ≤ s.rank + (acts.map Act.grant).sum := by
  induction acts generalizing s with
  | nil =>
      cases hrun
      exact Nat.le_refl _
  | cons act acts ih =>
      obtain ⟨s₁, hstep, hrest⟩ := Option.bind_eq_some_iff.mp hrun
      have hle := rank_step h.inv.1 hstep
      have hle' := ih (h.step hstep) hrest
      rw [List.countP_cons, List.map_cons, List.sum_cons]
      omega

/-- **Every reachable state obeys the laws.** -/
theorem Reach.laws {s : State} (h : Reach s) : Laws s where
  inRange := h.inv.1.fault
  refused := by
    intro hactive ids
    simp [State.start, hactive]
  started := h.inv.2.books.unique
  calls := by
    intro batch ids hmem
    obtain ⟨position, hle, hcalls⟩ := h.inv.2.calls.past batch ids hmem
    exact ⟨position, hle, hcalls⟩
  order := h.inv.2.order.each
  known := fun batch hnew => h.inv.2.known hnew
  once := by
    intro batch
    have hfate := h.inv.2.fates batch
    have hle : owed s.batch batch ≤ 1 := by
      simp only [owed]
      split <;> omega
    omega
  settled := fun hrest batch ids hmem hdrops => h.inv.2.settled h.inv.1 hrest hmem hdrops
  bounded := fun acts s' hrun => h.bounded hrun
  reports := fun batch ids removed hmem hdone => h.inv.2.reports.done batch removed ids hdone hmem
  silent := h.inv.2.silence.removes

/-- `cancel` is not called between the worker's taking of a completion and its call. -/
def Heeds (s : State) (act : Act) : Prop := act = .cancel → s.place.isCompleting = false

/-- **The batch of removals.** Of its laws, the silence of the completions holds in the runs in which
no `cancel` comes between the worker's taking of a completion and its call. -/
theorem removal_batch (s : State) :
    (Reach s → Laws s) ∧ (ReachWith Heeds s → SilentFor Event.IsCompletion s.log) := by
  refine ⟨Reach.laws, ?_⟩
  intro h
  have hinv : Control s ∧ Inv s ∧ Quiet s := by
    refine h.invariant (I := fun s => Inv s ∧ Quiet s) (fun _ hok => hok rfl)
      ⟨inv_new, Lib.each_nil, by simp [State.new]⟩ ?_
    rintro s s' hc ⟨hinv, hquiet⟩ hmove
    exact ⟨hinv.move hc hmove, hquiet.move hc hinv.silence hmove⟩
  exact hinv.2.2.completions

instance (s : State) (act : Act) : Decidable (Heeds s act) :=
  inferInstanceAs (Decidable (_ → _))

/-- Every act of the script is allowed when its turn comes. -/
def Obeys (ok : State → Act → Prop) (s : State) : List Act → Prop
  | [] => True
  | act :: acts => ok s act ∧ ∀ s' ∈ s.step act, Obeys ok s' acts

instance decidableObeys (ok : State → Act → Prop) [∀ s act, Decidable (ok s act)] :
    (s : State) → (acts : List Act) → Decidable (Obeys ok s acts)
  | _, [] => isTrue trivial
  | s, act :: acts =>
      have := fun s' => decidableObeys ok s' acts
      inferInstanceAs (Decidable (ok s act ∧ ∀ s' ∈ s.step act, Obeys ok s' acts))

theorem ReachWith.run {ok : State → Act → Prop} {s s' : State} {acts : List Act}
    (h : ReachWith ok s) (hok : Obeys ok s acts) (hrun : s.run acts = some s') :
    ReachWith ok s' := by
  induction acts generalizing s with
  | nil =>
      cases hrun
      exact h
  | cons act acts ih =>
      obtain ⟨s₁, hstep, hrest⟩ := Option.bind_eq_some_iff.mp hrun
      exact ih (h.step hok.1 hstep) (hok.2 s₁ hstep) hrest

/-- A batch of one id, which is answered before `remove` returns. Of the next batch the first id is
answered when `cancel` comes, with the worker at the second one. -/
def oneRemoval : List Act :=
  [.start [7], .wake, .dispatch, .recheck, .callRemove, .result 7 0, .removeReturned true,
    .callComplete, .completeReturned, .start [8, 9], .wake, .dispatch, .recheck, .callRemove,
    .result 8 0, .removeReturned true, .cancelDispatch, .cancel, .dispatch, .recheck]

theorem removal_batch_oneRemoval :
    ∃ s, State.new.run oneRemoval = some s ∧ .complete 1 [7] ∈ s.log ∧
      s.log.any Event.isCancelled = true ∧ s.place = .waiting ∧ Laws s ∧
      SilentFor Event.IsCompletion s.log := by
  refine ⟨_, rfl, by decide, by decide, by decide, (removal_batch _).1 ?_, (removal_batch _).2 ?_⟩
  · exact ReachWith.run .new (by decide : Obeys _ .new oneRemoval) rfl
  · exact ReachWith.run .new (by decide : Obeys _ .new oneRemoval) rfl

/-- The worker has taken the completion of an empty batch when `cancel` comes. -/
def lateCompletion : List Act := [.start [], .wake, .cancelDispatch, .cancel, .callComplete]

/-- **A completion that comes after `cancel` has returned.** -/
theorem lateCompletion_isLate :
    ∃ s, Reach s ∧ s.log = [.started 1 [], .cancelled none, .complete 1 []] ∧
      ¬ SilentFor Event.IsCompletion s.log := by
  refine ⟨_, ReachWith.run .new (by decide : Obeys _ .new lateCompletion) rfl, rfl, ?_⟩
  intro hsilent
  have h := hsilent [.started 1 [], .cancelled none] (.complete 1 []) [] rfl ⟨1, [], rfl⟩
  exact absurd (h (.cancelled none) (by simp)) (by simp [Event.isCancelled])

end Mindone.Fingerprint.Removal
