import Mathlib.Logic.Relation
import Mindone.Fingerprint.RemovalBatch
import Mindone.Lib.Trace

/-!
# Mindone.Fingerprint.RemovalRuns

What holds of the batch of removals in every interleaving. A step of the model is at most three
*moves*, each an explicit update with its guard (`Move`, `step_moves`); the invariants are kept by
each move, so they hold in every reachable state:

* `Control`: the indices are in range, the functions are there while a batch is active, and a
  worker that is about to remove holds `dispatch_` with the batch still active;
* `Fates`: **every batch that was started has one fate**: it is active, its completion is in the
  worker's hands, it was completed, or it was dropped by `cancel`;
* `Calls`, `Reports`: the calls of `remove`, and the ids a completion is called with;
* `Silence`: nothing is removed after `cancel` has returned.

The completion is called with neither lock held, so it can come after `cancel` has returned.
-/

namespace Mindone.Fingerprint.Removal

open Mindone.Lib

/-! ### What the log says of a batch -/

/-- The batch an event is about; batches are counted from one. -/
def Event.batch : Event → Nat
  | .started batch _ | .resolved batch _ | .failed batch | .remove batch _ _ | .complete batch _ =>
      batch
  | .reported _ _ awaited => (awaited.map Prod.fst).getD 0
  | .cancelled dropped => dropped.getD 0
  | .refused => 0

def Event.call (batch : Nat) : Event → Option (Int × Nat)
  | .remove of index id => if of = batch then some (id, index) else none
  | _ => none

/-- The removals of a batch that were asked for: the ids, with their positions. -/
def calls (batch : Nat) (log : List Event) : List (Int × Nat) := log.filterMap (Event.call batch)

/-- The id of an event that reports a removal of the batch `ids` while its own position was waiting.
A position that holds zero stands for every id. -/
def Event.report (batch : Nat) (ids : List Int) : Event → Option Int
  | .reported id _ (some (of, index)) =>
      if of = batch ∧ id ≠ 0 ∧ (ids.getD index 0 = 0 ∨ id = ids.getD index 0) then some id else none
  | _ => none

def reports (batch : Nat) (ids : List Int) (log : List Event) : List Int :=
  log.filterMap (Event.report batch ids)

def Event.isComplete (batch : Nat) : Event → Bool
  | .complete of _ => of == batch
  | _ => false

def Event.isDrop (batch : Nat) : Event → Bool
  | .cancelled dropped => dropped == some batch
  | _ => false

/-- How often a batch was completed. -/
def completions (batch : Nat) (log : List Event) : Nat := log.countP (Event.isComplete batch)

/-- How often a batch was dropped by `cancel`. -/
def drops (batch : Nat) (log : List Event) : Nat := log.countP (Event.isDrop batch)

/-- `cancel` has returned. -/
def Event.isCancelled : Event → Bool
  | .cancelled _ => true
  | _ => false

@[simp] theorem calls_append (batch : Nat) (log new : List Event) :
    calls batch (log ++ new) = calls batch log ++ calls batch new := by
  simp [calls]

@[simp] theorem reports_append (batch : Nat) (ids : List Int) (log new : List Event) :
    reports batch ids (log ++ new) = reports batch ids log ++ reports batch ids new := by
  simp [reports]

@[simp] theorem completions_append (batch : Nat) (log new : List Event) :
    completions batch (log ++ new) = completions batch log + completions batch new := by
  simp [completions]

@[simp] theorem drops_append (batch : Nat) (log new : List Event) :
    drops batch (log ++ new) = drops batch log + drops batch new := by
  simp [drops]

/-! ### Moves -/

theorem State.push_eq (s : State) (id : Int) :
    s.push id = { s with removed := s.removed ++ if id = 0 then [] else [id] } := by
  by_cases h : id = 0 <;> simp [State.push, h]

/-- **What a step can do**, in moves between which the invariants hold. A `cancel` is made from the
states that are `allowed`. -/
inductive Move (allowed : State → Prop) (s : State) : State → Prop
  | refused : Move allowed s (s.note .refused)
  | began (ids : List Int) (hactive : s.active = false) (hretired : s.retired = false) :
      Move allowed s (s.begin_ ids)
  | ignored (id : Int) (remaining : Nat)
      (h : s.active = true → s.waiting = true → s.isForeign id = true) :
      Move allowed s (s.note (.reported id remaining s.awaited))
  | kept (id : Int) (remaining : Nat) (hactive : s.active = true) (hwaiting : s.waiting = true)
      (hown : s.isForeign id = false) :
      Move allowed s ((s.note (.reported id remaining s.awaited)).push id)
  | answered (id : Int) (remaining : Nat) (hactive : s.active = true) (hwaiting : s.waiting = true)
      (hown : s.isForeign id = false) :
      Move allowed s ((s.note (.reported id remaining s.awaited)).push id).resolve
  | failed (hactive : s.active = true) :
      Move allowed s { s with
        waiting := false, index := s.pending.length, log := s.log ++ [.failed s.batch] }
  | held (hholder : s.holder = .nobody) : Move allowed s { s with holder := .canceller }
  | cancelled (hholder : s.holder = .canceller) (hallowed : allowed s) : Move allowed s s.cancel
  | took (hplace : s.place = .waiting) (hactive : s.active = true) (hwaiting : s.waiting = false)
      (hindex : s.index = s.pending.length) : Move allowed s s.take
  | captured (id : Int) (hplace : s.place = .waiting) (hactive : s.active = true)
      (hwaiting : s.waiting = false) (hid : s.pending[s.index]? = some id) :
      Move allowed s { s with place := .captured s.remove s.index id }
  | dispatched {remove : Option Nat} {index : Nat} {id : Int}
      (hplace : s.place = .captured remove index id) (hholder : s.holder = .nobody) :
      Move allowed s { s with holder := .worker, place := .dispatching remove index id }
  | confirmed {remove : Option Nat} {index : Nat} {id : Int}
      (hplace : s.place = .dispatching remove index id) (hactive : s.active = true)
      (hindex : s.index = index) :
      Move allowed s { s with waiting := true, place := .removing remove index id }
  | stale {remove : Option Nat} {index : Nat} {id : Int}
      (hplace : s.place = .dispatching remove index id) :
      Move allowed s { s with holder := .nobody, place := .waiting }
  | called {batch index : Nat} {id : Int} (hplace : s.place = .removing (some batch) index id) :
      Move allowed s { s with place := .inRemove index, log := s.log ++ [.remove batch index id] }
  | rejected {index : Nat} (hplace : s.place = .inRemove index) (hactive : s.active = true)
      (hwaiting : s.waiting = true) (hindex : s.index = index) :
      Move allowed s { s.resolve with holder := .nobody, place := .waiting }
  | returned {index : Nat} (hplace : s.place = .inRemove index) :
      Move allowed s { s with holder := .nobody, place := .waiting }
  | completed {batch : Nat} {removed : List Int} (hplace : s.place = .completing (some batch) removed) :
      Move allowed s { s with place := .inComplete, log := s.log ++ [.complete batch removed] }
  | finished (hplace : s.place = .inComplete) : Move allowed s { s with place := .waiting }

abbrev Moves (allowed : State → Prop) : State → State → Prop :=
  Relation.ReflTransGen (Move allowed)

variable {allowed : State → Prop}

/-! ### Control -/

/-- What holds of the worker's place. -/
def State.PlaceOk (s : State) : Prop :=
  match s.place with
  | .waiting | .inComplete => s.holder ≠ .worker
  | .captured remove index id =>
      s.holder ≠ .worker ∧ s.waiting = false ∧ (s.active = false → s.retired = true) ∧
        (s.active = true → remove = some s.batch ∧ s.pending[index]? = some id ∧
          (s.index = index ∨ s.index = s.pending.length))
  | .dispatching remove index id =>
      s.holder = .worker ∧ s.waiting = false ∧ (s.active = false → s.retired = true) ∧
        (s.active = true → remove = some s.batch ∧ s.pending[index]? = some id ∧
          (s.index = index ∨ s.index = s.pending.length))
  | .removing remove index id =>
      s.holder = .worker ∧ s.active = true ∧ remove = some s.batch ∧
        s.pending[index]? = some id ∧
        (s.waiting = true ∧ s.index = index ∨
          s.waiting = false ∧ (s.index = index + 1 ∨ s.index = s.pending.length))
  | .inRemove index =>
      s.holder = .worker ∧ s.active = true ∧ index < s.pending.length ∧
        (s.waiting = true ∧ s.index = index ∨
          s.waiting = false ∧ (s.index = index + 1 ∨ s.index = s.pending.length))
  | .completing complete _ => s.holder ≠ .worker ∧ ∃ batch, complete = some batch

structure Control (s : State) : Prop where
  fault : s.fault = false
  le : s.active = true → s.index ≤ s.pending.length
  lt : s.active = true → s.waiting = true → s.index < s.pending.length
  functions : s.active = true → s.remove = some s.batch ∧ s.complete = some s.batch
  retired : s.retired = true → s.active = false
  place : s.PlaceOk

theorem control_new : Control .new where
  fault := rfl
  le := by simp [State.new]
  lt := by simp [State.new]
  functions := by simp [State.new]
  retired := by simp [State.new]
  place := by simp [State.new, State.PlaceOk]

/-- **The control is kept by every move.** -/
theorem Control.move {s s' : State} (h : Control s) (hmove : Move allowed s s') : Control s' := by
  obtain ⟨hfault, hle, hlt, hfunctions, hretired, hplace⟩ := h
  cases hmove with
  | refused => exact ⟨hfault, hle, hlt, hfunctions, hretired, hplace⟩
  | began ids hactive hnot =>
      refine ⟨hfault, by simp [State.begin_], by simp [State.begin_], by simp [State.begin_],
        by simp [State.begin_, hnot], ?_⟩
      -- a worker that has captured a removal of another batch would have to be in a retired one
      cases hp : s.place <;> simp_all [State.PlaceOk, State.begin_]
  | ignored id remaining hignored => exact ⟨hfault, hle, hlt, hfunctions, hretired, hplace⟩
  | kept id remaining hactive hwaiting hown =>
      rw [State.push_eq]
      exact ⟨hfault, hle, hlt, hfunctions, hretired, hplace⟩
  | answered id remaining hactive hwaiting hown =>
      rw [State.push_eq]
      have hindex := hlt hactive hwaiting
      refine ⟨hfault, fun _ => hindex, by simp [State.resolve], hfunctions, hretired, ?_⟩
      cases hp : s.place <;>
        simp_all [State.PlaceOk, State.resolve, State.note]
  | failed hactive =>
      refine ⟨hfault, by simp, by simp, hfunctions, hretired, ?_⟩
      cases hp : s.place <;> simp_all [State.PlaceOk]
  | held hholder =>
      refine ⟨hfault, hle, hlt, hfunctions, hretired, ?_⟩
      cases hp : s.place <;> simp_all [State.PlaceOk]
  | cancelled hholder hallowed =>
      refine ⟨hfault, by simp [State.cancel], by simp [State.cancel], by simp [State.cancel],
        by simp [State.cancel], ?_⟩
      cases hp : s.place <;> simp_all [State.PlaceOk, State.cancel]
  | took hp hactive hwaiting hindex =>
      refine ⟨hfault, by simp [State.take], by simp [State.take], by simp [State.take],
        by simp [State.take], ?_⟩
      simp_all [State.PlaceOk, State.take]
  | captured id hp hactive hwaiting hid =>
      refine ⟨hfault, hle, hlt, hfunctions, hretired, ?_⟩
      simp_all [State.PlaceOk]
  | dispatched hp hholder =>
      refine ⟨hfault, hle, hlt, hfunctions, hretired, ?_⟩
      simp_all [State.PlaceOk]
  | confirmed hp hactive hindex =>
      simp only [State.PlaceOk, hp] at hplace
      obtain ⟨hholder, -, -, hcaptured⟩ := hplace
      obtain ⟨hremove, hid, -⟩ := hcaptured hactive
      have hlen := (List.getElem?_eq_some_iff.mp hid).1
      refine ⟨hfault, hle, fun _ _ => hindex ▸ hlen, hfunctions, hretired, ?_⟩
      exact ⟨hholder, hactive, hremove, hid, .inl ⟨rfl, hindex⟩⟩
  | stale hp =>
      refine ⟨hfault, hle, hlt, hfunctions, hretired, ?_⟩
      simp [State.PlaceOk]
  | called hp =>
      simp only [State.PlaceOk, hp] at hplace
      obtain ⟨hholder, hactive, -, hid, hindex⟩ := hplace
      refine ⟨hfault, hle, hlt, hfunctions, hretired, ?_⟩
      exact ⟨hholder, hactive, (List.getElem?_eq_some_iff.mp hid).1, hindex⟩
  | rejected hp hactive hwaiting hindex =>
      have hlen := hlt hactive hwaiting
      refine ⟨hfault, fun _ => hlen, by simp [State.resolve], hfunctions, hretired, ?_⟩
      simp [State.PlaceOk]
  | returned hp =>
      refine ⟨hfault, hle, hlt, hfunctions, hretired, ?_⟩
      simp [State.PlaceOk]
  | completed hp =>
      refine ⟨hfault, hle, hlt, hfunctions, hretired, ?_⟩
      simp_all [State.PlaceOk]
  | finished hp =>
      refine ⟨hfault, hle, hlt, hfunctions, hretired, ?_⟩
      simp_all [State.PlaceOk]

/-! ### A step is a few moves -/

theorem moves_top {s : State} (hle : s.active = true → s.index ≤ s.pending.length) :
    Moves allowed { s with place := .waiting } s.top := by
  rw [State.top]
  split
  next hready =>
    simp only [Bool.and_eq_true, Bool.not_eq_true'] at hready
    obtain ⟨hactive, hwaiting⟩ := hready
    split
    next hindex => exact .single (.took (s := { s with place := .waiting }) rfl hactive hwaiting hindex)
    next hindex =>
      have hlen : s.index < s.pending.length := Nat.lt_of_le_of_ne (hle hactive) hindex
      rw [List.getElem?_eq_getElem hlen]
      exact .single (.captured (s := { s with place := .waiting }) _ rfl hactive hwaiting
        (List.getElem?_eq_getElem hlen))
  next => exact .refl

theorem result_moves {s : State} (h : Control s) (id : Int) (remaining : Nat) :
    Moves allowed s (s.result id remaining) := by
  simp only [State.result]
  split
  next hidle =>
    refine .single (.ignored id remaining ?_)
    intro hactive hwaiting
    simp [State.note, hactive, hwaiting] at hidle
  next hready =>
    simp only [State.note, Bool.or_eq_true, Bool.not_eq_true', not_or, Bool.not_eq_false] at hready
    obtain ⟨hactive, hwaiting⟩ := hready
    have hlen := h.lt hactive hwaiting
    rw [if_neg (by simp [State.note, Nat.not_le.mpr hlen])]
    split
    next hforeign => exact .single (.ignored id remaining fun _ _ => hforeign)
    next hown =>
      have hown : s.isForeign id = false := Bool.eq_false_iff.mpr hown
      split
      next => exact .single (.kept id remaining hactive hwaiting hown)
      next => exact .single (.answered id remaining hactive hwaiting hown)

/-- **A step is a few moves**, from a state where the control is well. -/
theorem step_moves {s s' : State} {act : Act} (h : Control s) (hstep : s.step act = some s')
    (hallowed : act = .cancel → allowed s) : Moves allowed s s' := by
  cases act with
  -- what the clients do is one move, or none
  | start ids =>
      cases hstep
      simp only [State.start]
      split
      next => exact .single .refused
      next hidle =>
        simp only [Bool.or_eq_true, not_or, Bool.not_eq_true] at hidle
        exact .single (.began ids hidle.1 hidle.2)
  | result id remaining =>
      cases hstep
      exact result_moves h id remaining
  | fail =>
      cases hstep
      simp only [State.fail]
      split
      next => exact .refl
      next hactive => exact .single (.failed (by simpa using hactive))
  | cancelDispatch =>
      simp only [State.step, Option.ite_none_right_eq_some, Option.some.injEq] at hstep
      obtain ⟨hholder, rfl⟩ := hstep
      exact .single (.held hholder)
  | cancel =>
      simp only [State.step, Option.ite_none_right_eq_some, Option.some.injEq] at hstep
      obtain ⟨hholder, rfl⟩ := hstep
      exact .single (.cancelled hholder (hallowed rfl))
  -- the worker goes back to the top, where it takes what is next
  | wake =>
      simp only [State.step, Option.ite_none_right_eq_some, Option.some.injEq] at hstep
      obtain ⟨⟨hp, -⟩, rfl⟩ := hstep
      simpa [← hp] using moves_top h.le
  | dispatch =>
      cases hp : s.place <;> simp only [State.step, hp, reduceCtorEq] at hstep
      simp only [Option.ite_none_right_eq_some, Option.some.injEq] at hstep
      obtain ⟨hholder, rfl⟩ := hstep
      exact .single (.dispatched hp hholder)
  -- behind the lock the worker looks at the batch once more
  | recheck =>
      cases hp : s.place <;> simp only [State.step, hp, reduceCtorEq, Option.some.injEq] at hstep
      subst hstep
      simp only [State.recheck]
      split
      next =>
        exact .trans (.single (.stale hp)) (moves_top (s := { s with holder := .nobody }) h.le)
      next hready =>
        simp only [bne_iff_ne, ne_eq, Bool.or_eq_true, Bool.not_eq_true', not_or,
          Bool.not_eq_false, not_not] at hready
        exact .single (.confirmed hp hready.1 hready.2)
  | callRemove =>
      cases hp : s.place <;> simp only [State.step, hp, reduceCtorEq, Option.some.injEq] at hstep
      subst hstep
      have hplace := h.place
      simp only [State.PlaceOk, hp] at hplace
      obtain ⟨-, -, rfl, -⟩ := hplace
      exact .single (.called hp)
  -- a removal that was refused settles its id at once
  | removeReturned accepted =>
      cases hp : s.place <;> simp only [State.step, hp, reduceCtorEq, Option.some.injEq] at hstep
      subst hstep
      simp only [State.removeReturned]
      split
      next hrejected =>
        simp only [Bool.and_eq_true, beq_iff_eq] at hrejected
        obtain ⟨⟨⟨hactive, hwaiting⟩, hindex⟩, -⟩ := hrejected
        exact .trans (.single (.rejected hp hactive hwaiting hindex))
          (moves_top (s := { s.resolve with holder := .nobody }) fun _ => h.lt hactive hwaiting)
      next =>
        exact .trans (.single (.returned hp)) (moves_top (s := { s with holder := .nobody }) h.le)
  -- what it calls is what it took out, which its place says
  | callComplete =>
      cases hp : s.place <;> simp only [State.step, hp, reduceCtorEq, Option.some.injEq] at hstep
      subst hstep
      have hplace := h.place
      simp only [State.PlaceOk, hp] at hplace
      obtain ⟨-, batch, rfl⟩ := hplace
      exact .single (.completed hp)
  | completeReturned =>
      cases hp : s.place <;> simp only [State.step, hp, reduceCtorEq, Option.some.injEq] at hstep
      subst hstep
      exact .trans (.single (.finished hp)) (moves_top h.le)

/-- **The invariant rule**: what the moves keep, in states where the control is well, holds of every
state that is reached. -/
theorem ReachWith.invariant {ok : State → Act → Prop} {I : State → Prop}
    (hallowed : ∀ s, ok s .cancel → allowed s) (hnew : I .new)
    (hmove : ∀ s s', Control s → I s → Move allowed s s' → I s') {s : State} (h : ReachWith ok s) :
    Control s ∧ I s := by
  induction h with
  | new => exact ⟨control_new, hnew⟩
  | @step s s' act _ hok hstep ih =>
      have hmoves : Moves allowed s s' :=
        step_moves ih.1 hstep fun hact => hallowed s (hact ▸ hok)
      clear hstep hok
      induction hmoves with
      | refl => exact ih
      | tail _ hlast ih => exact ⟨ih.1.move hlast, hmove _ _ ih.1 ih.2 hlast⟩

/-! ### Fates -/

/-- How many fates a batch has when `count` batches were started. -/
def owed (count batch : Nat) : Nat := if 1 ≤ batch ∧ batch ≤ count then 1 else 0

/-- The batch is active. -/
def State.open_ (s : State) (batch : Nat) : Nat := if s.active && s.batch == batch then 1 else 0

/-- The worker has taken the completion of the batch and has not called it yet. -/
def Place.inHands (batch : Nat) : Place → Nat
  | .completing (some of) _ => if of = batch then 1 else 0
  | _ => 0

/-- **A batch that was started has one fate**, and the others have none. -/
def Fates (s : State) : Prop :=
  ∀ batch, s.open_ batch + s.place.inHands batch + completions batch s.log + drops batch s.log =
    owed s.batch batch

theorem owed_succ (count batch : Nat) :
    owed (count + 1) batch = owed count batch + if count + 1 == batch then 1 else 0 := by
  by_cases hlast : count + 1 = batch
  · simp [owed, ← hlast]
  · simp [owed, hlast]
    have hiff : 1 ≤ batch ∧ batch ≤ count + 1 ↔ 1 ≤ batch ∧ batch ≤ count := by omega
    simp [hiff]

theorem fates_new : Fates .new := by
  intro batch
  simp [State.new, State.open_, Place.inHands, completions, drops, owed]
  omega

/-- Every move gives at most one fate to a batch. -/
theorem Fates.move {s s' : State} (hc : Control s) (h : Fates s) (hmove : Move allowed s s') :
    Fates s' := by
  intro batch
  have h := h batch
  cases hmove with
  | refused | ignored | kept | answered | failed | held =>
      -- the log grows by an event that is no fate
      simpa [State.open_, completions, drops, Event.isComplete, Event.isDrop, State.note,
        State.push_eq, State.resolve] using h
  | began ids hactive hretired =>
      -- no batch was active, and the new one has no fate yet
      simp [State.open_, hactive] at h
      simp [State.begin_, State.open_, owed_succ, ← h, completions, drops, Event.isComplete,
        Event.isDrop]
      omega
  | cancelled hholder hallowed =>
      cases hactive : s.active <;>
        simp [State.cancel, State.open_, hactive, completions, drops, Event.isComplete,
          Event.isDrop] at h ⊢ <;> omega
  | took hp hactive hwaiting hindex =>
      obtain ⟨-, hcomplete⟩ := hc.functions hactive
      simpa [State.take, State.open_, hactive, hp, hcomplete, Place.inHands] using h
  | completed hp =>
      simp only [hp, Place.inHands, completions] at h
      simp only [State.open_, Place.inHands, completions, drops, List.countP_append,
        List.countP_singleton, Event.isComplete, Event.isDrop, Bool.false_eq_true, if_false,
        beq_iff_eq] at h ⊢
      omega
  | captured | dispatched | confirmed | stale | called | rejected | returned | finished =>
      -- the worker goes on with no completion in its hands
      simp_all [State.open_, Place.inHands, completions, drops, Event.isComplete, Event.isDrop,
        State.resolve]

/-- An active batch was started, and it has no other fate. -/
theorem Fates.active {s : State} (h : Fates s) (hactive : s.active = true) :
    1 ≤ s.batch ∧ s.place.inHands s.batch = 0 ∧ completions s.batch s.log = 0 := by
  have h := h s.batch
  simp only [State.open_, hactive, Bool.true_and, beq_self_eq_true, if_true, owed] at h
  split at h <;> omega

/-- A batch whose completion is in the worker's hands was started, and has no other fate. -/
theorem Fates.inHands {s : State} {batch : Nat} {removed : List Int} (h : Fates s)
    (hp : s.place = .completing (some batch) removed) :
    batch ≤ s.batch ∧ s.open_ batch = 0 ∧ completions batch s.log = 0 := by
  have h := h batch
  simp only [hp, Place.inHands, if_true, owed] at h
  split at h <;> omega

theorem Fates.completed {s : State} {batch : Nat} {removed : List Int} (h : Fates s)
    (hmem : .complete batch removed ∈ s.log) : s.open_ batch = 0 := by
  have h := h batch
  have hpos : 0 < completions batch s.log :=
    List.countP_pos_iff.mpr ⟨_, hmem, by simp [Event.isComplete]⟩
  simp only [owed] at h
  split at h <;> omega

/-! ### The books -/

/-- The log is about the batches that were started, and each of these has its ids. -/
structure Books (s : State) : Prop where
  bound : ∀ event ∈ s.log, event.batch ≤ s.batch
  current : 1 ≤ s.batch → .started s.batch s.pending ∈ s.log
  unique : ∀ batch ids ids', .started batch ids ∈ s.log → .started batch ids' ∈ s.log → ids = ids'
  all : ∀ batch, 1 ≤ batch → batch ≤ s.batch → ∃ ids, .started batch ids ∈ s.log
  first : ∀ batch ids, .started batch ids ∈ s.log → 1 ≤ batch
  removes : ∀ batch index id, .remove batch index id ∈ s.log → 1 ≤ batch

theorem Books.append {s s' : State} {e : Event} (h : Books s) (hlog : s'.log = s.log ++ [e])
    (hbatch : s'.batch = s.batch) (hpending : s'.pending = s.pending)
    (hevent : e.batch ≤ s.batch) (hnew : ∀ batch ids, e ≠ .started batch ids)
    (hremove : ∀ batch index id, e = .remove batch index id → 1 ≤ batch) : Books s' := by
  have hold : ∀ batch ids, .started batch ids ∈ s'.log → .started batch ids ∈ s.log := by
    intro batch ids hmem
    rw [hlog] at hmem
    rcases List.mem_append.mp hmem with hmem | hmem
    · exact hmem
    · exact absurd (List.mem_singleton.mp hmem).symm (hnew batch ids)
  refine ⟨?_, ?_, ?_, ?_, ?_, ?_⟩
  · intro earlier he
    rw [hlog] at he
    rw [hbatch]
    rcases List.mem_append.mp he with he | he
    · exact h.bound earlier he
    · rwa [List.mem_singleton.mp he]
  · intro hle
    rw [hlog, hbatch, hpending]
    exact List.mem_append_left _ (h.current (hbatch ▸ hle))
  · intro batch ids ids' hids hids'
    exact h.unique batch ids ids' (hold batch ids hids) (hold batch ids' hids')
  · intro batch hpos hle
    obtain ⟨ids, hmem⟩ := h.all batch hpos (hbatch ▸ hle)
    exact ⟨ids, hlog ▸ List.mem_append_left _ hmem⟩
  · intro batch ids hmem
    exact h.first batch ids (hold batch ids hmem)
  · intro batch index id hmem
    rw [hlog] at hmem
    rcases List.mem_append.mp hmem with hmem | hmem
    · exact h.removes batch index id hmem
    · exact hremove batch index id (List.mem_singleton.mp hmem).symm

/-- Every move keeps the books of the batches. -/
theorem Books.move {s s' : State} (hc : Control s) (hf : Fates s) (h : Books s)
    (hmove : Move allowed s s') : Books s' := by
  have hawaited : (s.awaited.map Prod.fst).getD 0 ≤ s.batch := by
    simp only [State.awaited]
    split <;> simp
  cases hmove with
  -- an event that starts nothing is appended
  | refused => exact h.append rfl rfl rfl (Nat.zero_le _) (by simp) (by simp)
  | ignored => exact h.append rfl rfl rfl hawaited (by simp) (by simp)
  | kept =>
      rw [State.push_eq]
      exact h.append rfl rfl rfl hawaited (by simp) (by simp)
  | answered id remaining =>
      rw [State.push_eq]
      have hreported : Books (s.note (.reported id remaining s.awaited)) :=
        h.append rfl rfl rfl hawaited (by simp) (by simp)
      exact hreported.append (e := .resolved s.batch s.index) rfl rfl rfl (Nat.le_refl _) (by simp) (by simp)
  | failed => exact h.append rfl rfl rfl (Nat.le_refl _) (by simp) (by simp)
  -- a new batch has the next number
  | began ids hactive hretired =>
      have hfresh : ∀ ids', .started (s.batch + 1) ids' ∉ s.log :=
        fun ids' hmem => Nat.not_succ_le_self _ (h.bound _ hmem)
      refine ⟨?_, by simp [State.begin_], ?_, ?_, ?_, ?_⟩
      · intro e he
        rcases List.mem_append.mp he with he | he
        · exact Nat.le_succ_of_le (h.bound e he)
        · rw [List.mem_singleton.mp he]
          exact Nat.le_refl _
      · intro batch first second hfirst hsecond
        simp only [State.begin_, List.mem_append, List.mem_singleton, Event.started.injEq]
          at hfirst hsecond
        rcases hfirst with hfirst | ⟨rfl, rfl⟩ <;> rcases hsecond with hsecond | ⟨hbatch, rfl⟩
        · exact h.unique batch first second hfirst hsecond
        · exact absurd (hbatch ▸ hfirst) (hfresh first)
        · exact absurd hsecond (hfresh second)
        · rfl
      · intro batch hpos hle
        by_cases hlast : batch = s.batch + 1
        · exact ⟨ids, by simp [State.begin_, hlast]⟩
        · obtain ⟨ids, hmem⟩ := h.all batch hpos (Nat.lt_succ_iff.mp (Nat.lt_of_le_of_ne hle hlast))
          exact ⟨ids, List.mem_append_left _ hmem⟩
      · intro batch ids' hmem
        rcases List.mem_append.mp hmem with hmem | hmem
        · exact h.first batch ids' hmem
        · obtain ⟨rfl, -⟩ := Event.started.inj (List.mem_singleton.mp hmem)
          exact Nat.succ_pos _
      · intro batch index id hmem
        exact h.removes batch index id (by simpa [State.begin_] using hmem)
  | cancelled hholder hallowed =>
      refine h.append rfl rfl rfl ?_ (by simp) (by simp)
      simp only [Event.batch]
      split <;> simp
  -- a call is for the batch that is under way
  | called hp =>
      have hplace := hc.place
      simp only [State.PlaceOk, hp, Option.some.injEq] at hplace
      obtain ⟨-, hactive, rfl, -⟩ := hplace
      refine h.append rfl rfl rfl (Nat.le_refl _) (by simp) ?_
      rintro _ _ _ ⟨⟩
      exact (hf.active hactive).1
  | rejected => exact h.append rfl rfl rfl (Nat.le_refl _) (by simp) (by simp)
  | completed hp => exact h.append rfl rfl rfl (hf.inHands hp).1 (by simp) (by simp)
  -- the rest leaves the log alone
  | held | took | captured | dispatched | confirmed | stale | returned | finished =>
      exact ⟨h.bound, h.current, h.unique, h.all, h.first, h.removes⟩

/-! ### The calls of `remove` -/

/-- The position the next call of an active batch is for. -/
def State.Next (s : State) (position : Nat) : Prop :=
  match s.place with
  | .captured _ index _ | .dispatching _ index _ | .removing _ index _ => position = index
  | .inRemove index => position = index + 1
  | _ => s.index < s.pending.length → position = s.index + if s.waiting then 1 else 0

/-- The calls of a batch are those for its first positions. -/
def FirstCalls (batch : Nat) (ids : List Int) (log : List Event) (position : Nat) : Prop :=
  position ≤ ids.length ∧ calls batch log = (ids.take position).zipIdx

structure Calls (s : State) : Prop where
  past : ∀ batch ids, .started batch ids ∈ s.log → ∃ position, FirstCalls batch ids s.log position
  current : s.active = true → ∃ position, FirstCalls s.batch s.pending s.log position ∧ s.Next position

theorem FirstCalls.append {batch position : Nat} {ids : List Int} {log : List Event} {event : Event}
    (h : FirstCalls batch ids log position) (hevent : event.call batch = none) :
    FirstCalls batch ids (log ++ [event]) position := by
  simpa [FirstCalls, calls, hevent] using h

/-- The next call follows the others. -/
theorem FirstCalls.next {batch position : Nat} {id : Int} {ids : List Int} {log : List Event}
    (h : FirstCalls batch ids log position) (hid : ids[position]? = some id) :
    FirstCalls batch ids (log ++ [Event.remove batch position id]) (position + 1) := by
  have hlen := (List.getElem?_eq_some_iff.mp hid).1
  refine ⟨hlen, ?_⟩
  rw [calls_append, h.2, List.take_add_one, hid, List.zipIdx_append]
  simp [calls, Event.call, Nat.min_eq_left (Nat.le_of_lt hlen)]

/-- An event that neither starts a batch nor calls `remove`. -/
theorem Calls.append {s s' : State} {e : Event} (h : Calls s) (hlog : s'.log = s.log ++ [e])
    (hcall : ∀ batch, e.call batch = none) (hnew : ∀ batch ids, e ≠ .started batch ids)
    (hcurrent : s'.active = true → s.active = true ∧ s'.batch = s.batch ∧ s'.pending = s.pending ∧
      ∀ position, s.Next position → s'.Next position) : Calls s' := by
  constructor
  · intro batch ids hmem
    rw [hlog] at hmem ⊢
    rcases List.mem_append.mp hmem with hmem | hmem
    · obtain ⟨position, hfirst⟩ := h.past batch ids hmem
      exact ⟨position, hfirst.append (hcall batch)⟩
    · exact absurd (List.mem_singleton.mp hmem).symm (hnew batch ids)
  · intro hactive
    obtain ⟨hactive, hbatch, hpending, hnext⟩ := hcurrent hactive
    obtain ⟨position, hfirst, hposition⟩ := h.current hactive
    rw [hlog, hbatch, hpending]
    exact ⟨position, hfirst.append (hcall _), hnext position hposition⟩

/-- A move that leaves the log as it is. -/
theorem Calls.quiet {s s' : State} (h : Calls s) (hlog : s'.log = s.log)
    (hcurrent : s'.active = true → s.active = true ∧ s'.batch = s.batch ∧ s'.pending = s.pending ∧
      ∀ position, s.Next position → s'.Next position) : Calls s' := by
  refine ⟨hlog ▸ h.past, ?_⟩
  intro hactive
  obtain ⟨hactive, hbatch, hpending, hnext⟩ := hcurrent hactive
  obtain ⟨position, hfirst, hposition⟩ := h.current hactive
  rw [hlog, hbatch, hpending]
  exact ⟨position, hfirst, hnext position hposition⟩

/-- A batch that is not known yet has no calls. -/
theorem Books.no_calls {s : State} (h : Books s) {batch : Nat} (hbatch : s.batch < batch) :
    calls batch s.log = [] := by
  refine List.filterMap_eq_nil_iff.mpr fun event hmem => ?_
  have hle := h.bound event hmem
  cases event with
  | remove of index id =>
      have hne : of ≠ batch := Nat.ne_of_lt (Nat.lt_of_le_of_lt hle hbatch)
      simp [Event.call, hne]
  | _ => rfl

theorem Calls.began {s : State} {ids : List Int} (hc : Control s) (hb : Books s) (h : Calls s)
    (hactive : s.active = false) (hretired : s.retired = false) : Calls (s.begin_ ids) := by
  have hnone : calls (s.batch + 1) (s.begin_ ids).log = [] := by
    simp [State.begin_, calls, Event.call]
    exact List.filterMap_eq_nil_iff.mp (hb.no_calls (Nat.lt_succ_self s.batch))
  have hfirst : FirstCalls (s.batch + 1) ids (s.begin_ ids).log 0 := ⟨Nat.zero_le _, by simp [hnone]⟩
  refine ⟨?_, fun _ => ⟨0, hfirst, ?_⟩⟩
  · intro batch ids' hmem
    rcases List.mem_append.mp hmem with hmem | hmem
    · obtain ⟨position, hpast⟩ := h.past batch ids' hmem
      exact ⟨position, hpast.append rfl⟩
    · obtain ⟨rfl, rfl⟩ := Event.started.inj (List.mem_singleton.mp hmem)
      exact ⟨0, hfirst⟩
  · -- the worker has no removal in hand, since no batch was active and none was retired
    have hplace := hc.place
    cases hp : s.place <;> simp_all [State.PlaceOk, State.Next, State.begin_]

theorem Calls.called {s : State} {batch index : Nat} {id : Int} (hc : Control s) (hb : Books s)
    (hf : Fates s) (h : Calls s) (hp : s.place = .removing (some batch) index id) :
    Calls { s with place := .inRemove index, log := s.log ++ [Event.remove batch index id] } := by
  have hplace := hc.place
  simp only [State.PlaceOk, hp, Option.some.injEq] at hplace
  obtain ⟨-, hactive, rfl, hid, -⟩ := hplace
  obtain ⟨position, hfirst, hposition⟩ := h.current hactive
  simp only [State.Next, hp] at hposition
  subst hposition
  refine ⟨?_, fun _ => ⟨position + 1, hfirst.next hid, rfl⟩⟩
  intro batch ids hmem
  have hmem : .started batch ids ∈ s.log := by simpa using hmem
  by_cases hbatch : s.batch = batch
  · subst hbatch
    obtain rfl := hb.unique s.batch ids s.pending hmem (hb.current (hf.active hactive).1)
    exact ⟨position + 1, hfirst.next hid⟩
  · obtain ⟨position, hpast⟩ := h.past batch ids hmem
    exact ⟨position, hpast.append (by simp [Event.call, hbatch])⟩

theorem Calls.move {s s' : State} (hc : Control s) (hf : Fates s) (hb : Books s) (h : Calls s)
    (hmove : Move allowed s s') : Calls s' := by
  have hplace := hc.place
  cases hmove with
  -- What is told to the client or ignored does not move the batch.
  | refused => exact h.append rfl (by simp [Event.call]) (by simp) fun ha => ⟨ha, rfl, rfl, fun _ => id⟩
  | ignored => exact h.append rfl (by simp [Event.call]) (by simp) fun ha => ⟨ha, rfl, rfl, fun _ => id⟩
  | kept =>
      rw [State.push_eq]
      exact h.append rfl (by simp [Event.call]) (by simp) fun ha => ⟨ha, rfl, rfl, fun _ => id⟩
  -- An answer is reported first and then ends the wait of its finger.
  | answered id remaining hactive hwaiting hown =>
      rw [State.push_eq]
      have hreported : Calls (s.note (.reported id remaining s.awaited)) :=
        h.append rfl (by simp [Event.call]) (by simp) fun ha => ⟨ha, rfl, rfl, fun _ => fun hn => hn⟩
      refine hreported.append (e := .resolved s.batch s.index) rfl (by simp [Event.call]) (by simp)
        fun ha => ⟨ha, rfl, rfl, ?_⟩
      intro position hposition
      cases hp : s.place <;>
        simp_all [State.PlaceOk, State.Next, State.note, State.resolve] <;> omega
  | began ids hactive hretired => exact h.began hc hb hactive hretired
  | failed hactive =>
      refine h.append rfl (by simp [Event.call]) (by simp) fun ha => ⟨ha, rfl, rfl, ?_⟩
      intro position hposition
      cases hp : s.place <;> simp_all [State.Next]
  | cancelled hholder hallowed =>
      exact h.append rfl (by simp [Event.call]) (by simp) (by simp [State.cancel])
  -- The one move that calls into the module.
  | called hp => exact h.called hc hb hf hp
  | rejected hp hactive hwaiting hindex =>
      refine h.append (e := .resolved s.batch s.index) rfl (by simp [Event.call]) (by simp)
        fun ha => ⟨ha, rfl, rfl, ?_⟩
      simp_all [State.Next, State.resolve]
  | completed hp =>
      refine h.append rfl (by simp [Event.call]) (by simp) fun ha => ⟨ha, rfl, rfl, ?_⟩
      simp [State.Next, hp]
  | took => exact h.quiet rfl (by simp [State.take])
  | held hholder => exact h.quiet rfl fun ha => ⟨ha, rfl, rfl, fun _ => id⟩
  | dispatched hp | confirmed hp | finished hp =>
      refine h.quiet rfl fun ha => ⟨ha, rfl, rfl, ?_⟩
      simp [State.Next, hp]
  -- The rest move the worker between its places without a word.
  | captured id hp hactive hwaiting hid =>
      refine h.quiet rfl fun ha => ⟨ha, rfl, rfl, ?_⟩
      simp only [State.Next, hp, hwaiting]
      exact fun position hposition => hposition (List.getElem?_eq_some_iff.mp hid).1
  | stale hp =>
      refine h.quiet rfl fun ha => ⟨ha, rfl, rfl, ?_⟩
      simp only [State.PlaceOk, hp] at hplace
      obtain ⟨-, hwaiting, -, hcaptured⟩ := hplace
      obtain ⟨-, -, hindex⟩ := hcaptured ha
      simp only [State.Next, hp, hwaiting, Bool.false_eq_true, if_false]
      omega
  | returned hp =>
      refine h.quiet rfl fun ha => ⟨ha, rfl, rfl, ?_⟩
      simp only [State.PlaceOk, hp] at hplace
      obtain ⟨-, -, -, ⟨hwaiting, hindex⟩ | ⟨hwaiting, hindex⟩⟩ := hplace <;>
        simp only [State.Next, hp, hwaiting, Bool.false_eq_true, if_false, if_true] <;> omega

/-! ### The order of the calls -/

/-- A position is removed behind the one before it: `remove` is called for it when the other is
resolved. -/
def InOrder (log : List Event) : Prop :=
  Each (fun before event _ => ∀ batch index id, event = .remove batch (index + 1) id →
    .resolved batch index ∈ before) log

/-- The position in front of the given one is resolved. -/
def State.ResolvedTo (s : State) (position : Nat) : Prop :=
  ∀ index, position = index + 1 → .resolved s.batch index ∈ s.log

structure Order (s : State) : Prop where
  each : InOrder s.log
  current : s.active = true → s.index < s.pending.length → s.ResolvedTo s.index
  place : ∀ remove index id, s.place = .removing remove index id → s.ResolvedTo index

theorem InOrder.append {log : List Event} {event : Event} (h : InOrder log)
    (hevent : ∀ batch index id, event = .remove batch (index + 1) id → .resolved batch index ∈ log) :
    InOrder (log ++ [event]) :=
  Each.snoc h (fun _ _ hmark => hmark) hevent

theorem State.ResolvedTo.append {s s' : State} {events : List Event} {position : Nat}
    (h : s.ResolvedTo position) (hbatch : s'.batch = s.batch) (hlog : s'.log = s.log ++ events) :
    s'.ResolvedTo position := by
  intro index hindex
  rw [hbatch, hlog]
  exact List.mem_append_left _ (h index hindex)

/-- A move that brings the order no further. -/
theorem Order.append {s s' : State} {e : Event} (h : Order s) (hlog : s'.log = s.log ++ [e])
    (hevent : ∀ batch index id, e ≠ .remove batch index id) (hbatch : s'.batch = s.batch)
    (hcurrent : s'.active = true → s'.index < s'.pending.length →
      s'.ResolvedTo s'.index ∨ s.active = true ∧ s.index < s.pending.length ∧ s'.index = s.index)
    (hplace : s'.place = s.place ∨ ∀ remove index id, s'.place ≠ .removing remove index id) :
    Order s' := by
  refine ⟨?_, ?_, ?_⟩
  · rw [hlog]
    exact h.each.append fun batch index id heq => absurd heq (hevent batch (index + 1) id)
  · intro hactive hlt
    obtain hto | ⟨hactive, hlt, hindex⟩ := hcurrent hactive hlt
    · exact hto
    · rw [hindex]
      exact (h.current hactive hlt).append hbatch hlog
  · intro remove index id hp
    rcases hplace with hplace | hplace
    · exact (h.place remove index id (hplace ▸ hp)).append hbatch hlog
    · exact absurd hp (hplace remove index id)

/-- Every move keeps the order of the calls within a batch. -/
theorem Order.move {s s' : State} (hc : Control s) (h : Order s) (hmove : Move allowed s s') :
    Order s' := by
  have hplace := hc.place
  cases hmove with
  -- Nothing here touches the position in the batch.
  | refused | ignored => exact h.append rfl (by simp) rfl (fun ha hlt => .inr ⟨ha, hlt, rfl⟩) (.inl rfl)
  | kept =>
      rw [State.push_eq]
      exact h.append rfl (by simp) rfl (fun ha hlt => .inr ⟨ha, hlt, rfl⟩) (.inl rfl)
  | answered id remaining hactive hwaiting hown =>
      rw [State.push_eq]
      have hreported : Order (s.note (.reported id remaining s.awaited)) :=
        h.append rfl (by simp) rfl (fun ha hlt => .inr ⟨ha, hlt, rfl⟩) (.inl rfl)
      refine hreported.append (e := .resolved s.batch s.index) rfl (by simp) rfl
        (fun _ _ => .inl ?_) (.inl rfl)
      intro index hindex
      obtain rfl := Nat.succ.inj hindex
      simp [State.resolve, State.note]
  -- A new batch starts at its first finger, with nothing called yet.
  | began ids hactive hretired =>
      refine ⟨h.each.append (by simp), fun _ _ index hindex => absurd hindex (by simp [State.begin_]), ?_⟩
      intro remove index id hp
      have hp : s.place = .removing remove index id := hp
      simp only [State.PlaceOk, hp] at hplace
      exact absurd (hactive ▸ hplace.2.1) (by simp)
  | failed hactive => exact h.append rfl (by simp) rfl (by simp) (.inl rfl)
  | cancelled => exact h.append rfl (by simp) rfl (by simp [State.cancel]) (.inl rfl)
  -- The call is for the finger at the index, and all before it are resolved.
  | called hp =>
      simp only [State.PlaceOk, hp, Option.some.injEq] at hplace
      obtain ⟨-, -, rfl, -⟩ := hplace
      have hto := h.place _ _ _ hp
      refine ⟨?_, fun ha hlt => (h.current ha hlt).append rfl rfl, by simp⟩
      refine h.each.append ?_
      intro batch index id heq
      obtain ⟨rfl, rfl, -⟩ := Event.remove.inj heq
      exact hto index rfl
  | rejected hp hactive hwaiting hindex =>
      refine h.append (e := .resolved s.batch s.index) rfl (by simp) rfl (fun _ _ => .inl ?_)
        (.inr (by simp))
      intro index hindex
      obtain rfl := Nat.succ.inj hindex
      simp [State.resolve]
  | completed => exact h.append rfl (by simp) rfl (fun ha hlt => .inr ⟨ha, hlt, rfl⟩) (.inr (by simp))
  | took => exact ⟨h.each, by simp [State.take], by simp [State.take]⟩
  | held => exact ⟨h.each, h.current, h.place⟩
  | captured | dispatched | stale | returned | finished => exact ⟨h.each, h.current, by simp⟩
  -- The finger is confirmed against the index before it is called.
  | confirmed hp hactive hindex =>
      refine ⟨h.each, h.current, ?_⟩
      rintro _ _ _ ⟨⟩
      simp only [State.PlaceOk, hp] at hplace
      obtain ⟨-, -, -, hcaptured⟩ := hplace
      obtain ⟨-, hid, -⟩ := hcaptured hactive
      subst hindex
      exact h.current hactive (List.getElem?_eq_some_iff.mp hid).1

/-! ### The ids of a completion -/

/-- The ids that the source has gathered are those that were reported. -/
structure Reports (s : State) : Prop where
  current : s.active = true → s.removed = reports s.batch s.pending s.log
  inHands : ∀ batch removed ids, s.place = .completing (some batch) removed →
    .started batch ids ∈ s.log → removed = reports batch ids s.log
  done : ∀ batch removed ids, .complete batch removed ∈ s.log →
    .started batch ids ∈ s.log → removed = reports batch ids s.log

/-- An answer is reported for the batch that is active. -/
theorem report_eq_none {s : State} {batch : Nat} (hopen : s.open_ batch = 0) (ids : List Int) (id : Int)
    (remaining : Nat) : (Event.reported id remaining s.awaited).report batch ids = none := by
  simp only [State.awaited]
  split
  next hready =>
    simp only [Bool.and_eq_true] at hready
    have hne : s.batch ≠ batch := by simpa [State.open_, hready.1] using hopen
    simp [Event.report, hne]
  next => rfl

theorem report_foreign {s : State} {id : Int} (h : s.isForeign id = true) (remaining : Nat) :
    (Event.reported id remaining s.awaited).report s.batch s.pending = none := by
  simp only [State.isForeign, Bool.and_eq_true, bne_iff_ne, ne_eq] at h
  simp only [State.awaited]
  split
  next => exact if_neg fun hown => hown.2.2.elim h.1.2 h.2
  next => rfl

theorem report_own {s : State} {id : Int} (hactive : s.active = true) (hwaiting : s.waiting = true)
    (h : s.isForeign id = false) (remaining : Nat) :
    (Event.reported id remaining s.awaited).report s.batch s.pending =
      if id = 0 then none else some id := by
  simp only [State.isForeign, Bool.and_eq_false_iff, bne_eq_false_iff_eq] at h
  simp only [State.awaited, hactive, hwaiting, Bool.and_self, if_true, Event.report, true_and]
  by_cases hid : id = 0
  · simp [hid]
  · simp [hid]
    tauto

/-- The log grows by an event that starts no batch and reports nothing of the batches that are not
active. -/
theorem Reports.append {s s' : State} {e : Event} (hf : Fates s) (h : Reports s)
    (hlog : s'.log = s.log ++ [e])
    (hreport : ∀ batch ids, s.open_ batch = 0 → e.report batch ids = none)
    (hnew : ∀ batch ids, e ≠ .started batch ids)
    (hcomplete : ∀ batch removed, e = .complete batch removed →
      s.place = .completing (some batch) removed)
    (hcurrent : s'.active = true → s'.removed = reports s'.batch s'.pending s'.log)
    (hplace : ∀ batch removed, s'.place = .completing (some batch) removed →
      s.place = .completing (some batch) removed) : Reports s' := by
  have hstarted : ∀ batch ids, .started batch ids ∈ s'.log → .started batch ids ∈ s.log := by
    intro batch ids hmem
    rw [hlog] at hmem
    rcases List.mem_append.mp hmem with hmem | hmem
    · exact hmem
    · exact absurd (List.mem_singleton.mp hmem).symm (hnew batch ids)
  have hsame : ∀ batch ids, s.open_ batch = 0 → reports batch ids s'.log = reports batch ids s.log := by
    intro batch ids hopen
    simp [hlog, reports, hreport batch ids hopen]
  refine ⟨hcurrent, ?_, ?_⟩
  · intro batch removed ids hp hmem
    have hp := hplace batch removed hp
    rw [hsame batch ids (hf.inHands hp).2.1]
    exact h.inHands batch removed ids hp (hstarted batch ids hmem)
  · intro batch removed ids hdone hmem
    rw [hlog] at hdone
    rcases List.mem_append.mp hdone with hdone | hdone
    · rw [hsame batch ids (hf.completed hdone)]
      exact h.done batch removed ids hdone (hstarted batch ids hmem)
    · have hp := hcomplete batch removed (List.mem_singleton.mp hdone).symm
      rw [hsame batch ids (hf.inHands hp).2.1]
      exact h.inHands batch removed ids hp (hstarted batch ids hmem)

/-- The log grows by an event that reports nothing at all. -/
theorem Reports.current_append {s : State} {event : Event} (h : Reports s) (hactive : s.active = true)
    (hreport : event.report s.batch s.pending = none) :
    s.removed = reports s.batch s.pending (s.log ++ [event]) := by
  simpa [reports, hreport] using h.current hactive

/-- The ids grow by the one that was reported for the awaited position. -/
theorem Reports.kept {s : State} {id : Int} (remaining : Nat) (hf : Fates s) (h : Reports s)
    (hactive : s.active = true) (hwaiting : s.waiting = true) (hown : s.isForeign id = false) :
    Reports { s with
      removed := s.removed ++ (if id = 0 then [] else [id])
      log := s.log ++ [Event.reported id remaining s.awaited] } := by
  refine h.append hf rfl (fun batch ids hopen => report_eq_none hopen ids id remaining) (by simp)
    (by simp) (fun _ => ?_) (fun _ _ hp => hp)
  simp only [reports_append, h.current hactive]
  simp only [reports, List.filterMap_cons, List.filterMap_nil,
    report_own hactive hwaiting hown remaining]
  by_cases hid : id = 0 <;> simp [hid]

theorem Books.no_reports {s : State} (h : Books s) {batch : Nat} (hbatch : s.batch < batch)
    (ids : List Int) : reports batch ids s.log = [] := by
  refine List.filterMap_eq_nil_iff.mpr fun event hmem => ?_
  have hle := h.bound event hmem
  cases event with
  | reported id remaining awaited =>
      cases awaited with
      | none => rfl
      | some awaited =>
          have hne : awaited.1 ≠ batch := Nat.ne_of_lt (Nat.lt_of_le_of_lt hle hbatch)
          simp [Event.report, hne]
  | _ => rfl

/-- A new batch has reported nothing. -/
theorem Reports.began {s : State} {ids : List Int} (hf : Fates s) (hb : Books s) (h : Reports s) :
    Reports (s.begin_ ids) := by
  have hnone := hb.no_reports (Nat.lt_succ_self s.batch) ids
  have hsame : ∀ batch ids', reports batch ids' (s.begin_ ids).log = reports batch ids' s.log := by
    simp [State.begin_, reports, Event.report]
  have hstarted : ∀ batch ids', batch ≤ s.batch → .started batch ids' ∈ (s.begin_ ids).log →
      .started batch ids' ∈ s.log := by
    intro batch ids' hle hmem
    rcases List.mem_append.mp hmem with hmem | hmem
    · exact hmem
    · obtain ⟨rfl, -⟩ := Event.started.inj (List.mem_singleton.mp hmem)
      omega
  refine ⟨fun _ => ?_, ?_, ?_⟩
  · rw [hsame]
    exact hnone.symm
  · intro batch removed ids' hp hmem
    rw [hsame]
    exact h.inHands batch removed ids' hp (hstarted batch ids' (hf.inHands hp).1 hmem)
  · intro batch removed ids' hdone hmem
    have hdone : .complete batch removed ∈ s.log := by simpa [State.begin_] using hdone
    rw [hsame]
    exact h.done batch removed ids' hdone (hstarted batch ids' (hb.bound _ hdone) hmem)

/-- Every move keeps the reports to what the module has said. -/
theorem Reports.move {s s' : State} (hc : Control s) (hf : Fates s) (hb : Books s) (h : Reports s)
    (hmove : Move allowed s s') : Reports s' := by
  cases hmove with
  -- Moves that say nothing about a finger.
  | refused =>
      exact h.append hf rfl (fun _ _ _ => rfl) (by simp) (by simp) (fun ha => h.current_append ha rfl)
        fun _ _ hp => hp
  | ignored id remaining hignored =>
      refine h.append hf rfl (fun batch ids hopen => report_eq_none hopen ids id remaining) (by simp)
        (by simp) (fun ha => h.current_append ha ?_) fun _ _ hp => hp
      -- An ignored answer was for another finger, or came when none was waited for.
      by_cases hwaiting : s.waiting = true
      · exact report_foreign (hignored ha hwaiting) remaining
      · simp [State.awaited, hwaiting, Event.report]
  -- An answer for the awaited finger is pushed, and reported in its turn.
  | kept id remaining hactive hwaiting hown =>
      rw [State.push_eq]
      exact h.kept remaining hf hactive hwaiting hown
  | answered id remaining hactive hwaiting hown =>
      have hkept := hf.move hc (Move.kept id remaining hactive hwaiting hown : Move allowed s _)
      rw [State.push_eq] at hkept ⊢
      have h := h.kept remaining hf hactive hwaiting hown
      exact h.append (e := .resolved s.batch s.index) hkept rfl (fun _ _ _ => rfl) (by simp)
        (by simp) (fun ha => h.current_append ha rfl) fun _ _ hp => hp
  | began ids hactive hretired => exact h.began hf hb
  | failed hactive =>
      exact h.append hf rfl (fun _ _ _ => rfl) (by simp) (by simp) (fun ha => h.current_append ha rfl)
        fun _ _ hp => hp
  | cancelled =>
      exact h.append hf rfl (fun _ _ _ => rfl) (by simp) (by simp) (by simp [State.cancel])
        fun _ _ hp => hp
  | called hp =>
      exact h.append hf rfl (fun _ _ _ => rfl) (by simp) (by simp) (fun ha => h.current_append ha rfl)
        (by simp)
  | rejected =>
      exact h.append (e := .resolved s.batch s.index) hf rfl (fun _ _ _ => rfl) (by simp)
        (by simp) (fun ha => h.current_append ha rfl) (by simp)
  | completed hp =>
      refine h.append hf rfl (fun _ _ _ => rfl) (by simp) ?_ (fun ha => h.current_append ha rfl)
        (by simp)
      rintro _ _ ⟨⟩
      exact hp
  -- The batch is taken by the one that reports its end.
  | took hp hactive hwaiting hindex =>
      refine ⟨by simp [State.take], ?_, h.done⟩
      intro batch removed ids hp hmem
      obtain ⟨hbatch, rfl⟩ := Place.completing.inj hp
      obtain rfl := Option.some.inj ((hc.functions hactive).2.symm.trans hbatch)
      obtain rfl := hb.unique s.batch ids s.pending hmem (hb.current (hf.active hactive).1)
      exact h.current hactive
  | held => exact ⟨h.current, h.inHands, h.done⟩
  | captured | dispatched | confirmed | stale | returned | finished => exact ⟨h.current, by simp, h.done⟩

/-! ### Silence -/

/-- An event of the given kind does not come after `cancel` has returned. -/
def SilentFor (kind : Event → Prop) (log : List Event) : Prop :=
  Each (fun before event _ => kind event → ∀ earlier ∈ before, earlier.isCancelled = false) log

theorem SilentFor.append {kind : Event → Prop} {log : List Event} {event : Event}
    (h : SilentFor kind log)
    (hevent : kind event → ∀ earlier ∈ log, earlier.isCancelled = false) :
    SilentFor kind (log ++ [event]) :=
  Each.snoc h (fun _ _ hmark => hmark) hevent

def Event.IsRemove (event : Event) : Prop := ∃ batch index id, event = .remove batch index id

def Event.IsCompletion (event : Event) : Prop := ∃ batch removed, event = .complete batch removed

structure Silence (s : State) : Prop where
  retired : s.retired = false → ∀ event ∈ s.log, event.isCancelled = false
  removes : SilentFor Event.IsRemove s.log

theorem Silence.append {s s' : State} {e : Event} (h : Silence s)
    (hlog : s'.log = s.log ++ [e]) (hretired : s'.retired = false →
      s.retired = false ∧ e.isCancelled = false)
    (hremove : e.IsRemove → s.retired = false) : Silence s' := by
  constructor
  · intro hretired' earlier he
    obtain ⟨hretired', hevent⟩ := hretired hretired'
    rw [hlog] at he
    rcases List.mem_append.mp he with he | he
    · exact h.retired hretired' earlier he
    · rwa [List.mem_singleton.mp he]
  · rw [hlog]
    exact h.removes.append fun hkind => h.retired (hremove hkind)

/-- **No removal after `cancel`**: a worker that is about to remove holds `dispatch_`, and the batch
is active. -/
theorem Silence.move {s s' : State} (hc : Control s) (h : Silence s) (hmove : Move allowed s s') :
    Silence s' := by
  cases hmove with
  | refused | ignored | failed | began | completed =>
      exact h.append rfl (fun hr => ⟨hr, rfl⟩) (by simp [Event.IsRemove])
  | kept =>
      rw [State.push_eq]
      exact h.append rfl (fun hr => ⟨hr, rfl⟩) (by simp [Event.IsRemove])
  | answered id remaining =>
      rw [State.push_eq]
      have hreported : Silence (s.note (.reported id remaining s.awaited)) :=
        h.append rfl (fun hr => ⟨hr, rfl⟩) (by simp [Event.IsRemove])
      exact hreported.append (e := .resolved s.batch s.index) rfl (fun hr => ⟨hr, rfl⟩)
        (by simp [Event.IsRemove])
  | cancelled => exact h.append rfl (by simp [State.cancel]) (by simp [Event.IsRemove])
  | called hp =>
      have hplace := hc.place
      simp only [State.PlaceOk, hp] at hplace
      refine h.append rfl (fun hr => ⟨hr, rfl⟩) fun _ => Bool.eq_false_iff.mpr fun hr => ?_
      exact absurd (hc.retired hr) (by simp [hplace.2.1])
  | rejected =>
      exact h.append (e := .resolved s.batch s.index) rfl (fun hr => ⟨hr, rfl⟩)
        (by simp [Event.IsRemove])
  | held | took | captured | dispatched | confirmed | stale | returned | finished =>
      exact ⟨h.retired, h.removes⟩

/-- The worker has taken a completion that it has not called yet. -/
def Place.isCompleting : Place → Bool
  | .completing _ _ => true
  | _ => false

/-- No completion came after `cancel`, and none will. -/
structure Quiet (s : State) : Prop where
  completions : SilentFor Event.IsCompletion s.log
  place : s.place.isCompleting = true → ∀ event ∈ s.log, event.isCancelled = false

theorem Quiet.append {s s' : State} {e : Event} (h : Quiet s) (hlog : s'.log = s.log ++ [e])
    (hcompletion : e.IsCompletion → s.place.isCompleting = true)
    (hplace : s'.place.isCompleting = true → s.place.isCompleting = true ∧ e.isCancelled = false) :
    Quiet s' := by
  constructor
  · rw [hlog]
    exact h.completions.append fun hkind => h.place (hcompletion hkind)
  · intro hcompleting earlier hmem
    obtain ⟨hcompleting, he⟩ := hplace hcompleting
    rw [hlog] at hmem
    rcases List.mem_append.mp hmem with hmem | hmem
    · exact h.place hcompleting earlier hmem
    · rwa [List.mem_singleton.mp hmem]

/-- **No completion after `cancel`**, where it is not called between the worker's taking of a
completion and its call. -/
theorem Quiet.move {s s' : State} (hc : Control s) (hs : Silence s) (h : Quiet s)
    (hmove : Move (fun s => s.place.isCompleting = false) s s') : Quiet s' := by
  cases hmove with
  | refused | ignored | failed | began =>
      exact h.append rfl (by simp [Event.IsCompletion]) fun hp => ⟨hp, rfl⟩
  | kept =>
      rw [State.push_eq]
      exact h.append rfl (by simp [Event.IsCompletion]) fun hp => ⟨hp, rfl⟩
  | answered id remaining =>
      rw [State.push_eq]
      have hreported : Quiet (s.note (.reported id remaining s.awaited)) :=
        h.append rfl (by simp [Event.IsCompletion]) fun hp => ⟨hp, rfl⟩
      exact hreported.append (e := .resolved s.batch s.index) rfl (by simp [Event.IsCompletion])
        fun hp => ⟨hp, rfl⟩
  | cancelled hholder hallowed =>
      exact h.append rfl (by simp [Event.IsCompletion]) (by simp [State.cancel, hallowed])
  | called => exact h.append rfl (by simp [Event.IsCompletion]) (by simp [Place.isCompleting])
  | rejected =>
      exact h.append (e := .resolved s.batch s.index) rfl (by simp [Event.IsCompletion])
        (by simp [Place.isCompleting])
  | completed hp =>
      exact h.append rfl (by simp [hp, Place.isCompleting]) (by simp [Place.isCompleting])
  | took hp hactive hwaiting hindex =>
      have hretired : s.retired = false :=
        Bool.eq_false_iff.mpr fun hr => absurd (hc.retired hr) (by simp [hactive])
      exact ⟨h.completions, fun _ => hs.retired hretired⟩
  | held => exact ⟨h.completions, h.place⟩
  | captured | dispatched | confirmed | stale | returned | finished =>
      exact ⟨h.completions, by simp [Place.isCompleting]⟩

end Mindone.Fingerprint.Removal
