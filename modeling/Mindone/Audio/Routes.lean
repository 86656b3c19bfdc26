import Mathlib.Data.List.OfFn
import Mindone.Audio.Mixer

/-!
# Mindone.Audio.Routes

The owners of the output endpoints, twice: the functions of `audio-hf/audio_hw.c` that count the
owners and apply the mixer paths, and the planner of `audio-hf/rust/lib.rs` that computes the
counts and the actions of a transition before anything is applied. **The planner agrees with the C
functions** on every transition that releases only what is owned, and over every history the
mixer shows an endpoint exactly while it has owners. The speaker and the earpiece share a mux, so
switching one of them off applies the path of the other again.
-/

namespace Mindone.Audio

/-- `enum output_device` and the planner's `Endpoint`, with the same numbers. -/
inductive Endpoint
  | none
  | speaker
  | headphone
  | earpiece
  | sco
  deriving DecidableEq

def Endpoint.all : List Endpoint := [.none, .speaker, .headphone, .earpiece, .sco]

/-! ### The C functions -/

/-- `output_path_name` and, with the suffix, `output_path_off_name`; none for SCO. -/
def outputPathName : Endpoint → Option PathName
  | .headphone => some .headphone
  | .earpiece => some .earpiece
  | .sco => .none
  | .speaker | .none => some .speaker

/-- `out_ep_users` -/
abbrev EpUsers := Endpoint → Int

/-- `endpoint_acquire`: the counts, and the calls that are made. -/
def endpointAcquire (users : EpUsers) (d : Endpoint) : EpUsers × List RouteCall :=
  if d = .none then (users, [])
  else
    let users' := Function.update users d (users d + 1)
    if users d > 0 then (users', [])
    else
      match outputPathName d with
      | some path => (users', [.apply path true, .update])
      | none => (users', [])

/-- The path that shares a control with one that was switched off. -/
def sharedPath (users : EpUsers) (d : Endpoint) : List RouteCall :=
  if d = .speaker ∧ users .earpiece > 0 then [.apply .earpiece true]
  else if d = .earpiece ∧ users .speaker > 0 then [.apply .speaker true]
  else []

/-- `endpoint_release`; an endpoint without owners is left alone. -/
def endpointRelease (users : EpUsers) (d : Endpoint) : EpUsers × List RouteCall :=
  if d = .none then (users, [])
  else if users d ≤ 0 then (users, [])
  else
    let users' := Function.update users d (users d - 1)
    if users' d > 0 then (users', [])
    else
      match outputPathName d with
      | some path => (users', [.apply path false] ++ sharedPath users' d ++ [.update])
      | none => (users', [])

/-- `endpoint_release` and behind it `endpoint_acquire`. -/
def releaseAcquire (users : EpUsers) (old new : Endpoint) : EpUsers × List RouteCall :=
  let (users', released) := endpointRelease users old
  let (users'', acquired) := endpointAcquire users' new
  (users'', released ++ acquired)

/-- `apply_output_route` -/
def applyOutputRoute (users : EpUsers) (old new : Endpoint) : EpUsers × List RouteCall :=
  if old = new then (users, []) else releaseAcquire users old new

/-! ### The planner -/

def endpointCount : Nat := 5
def actionCapacity : Nat := 5

inductive Error
  | endpoint
  | state
  | underflow
  | overflow
  deriving DecidableEq

inductive Action
  | none
  | enable (e : Endpoint)
  | disable (e : Endpoint)
  | update
  deriving DecidableEq

/-- An `i32`. -/
abbrev I32 := { n : Int // -0x80000000 ≤ n ∧ n ≤ 0x7fffffff }

def i32Max : Nat := 0x7fffffff

/-- The counts that `Owners::new` lets through: none is negative, and the absent endpoint has no
owner. -/
structure Owners where
  users : Endpoint → Nat
  none_eq : users .none = 0
  le_max : ∀ e, users e ≤ i32Max

/-- The counts as the C side stores them. -/
def Owners.counts (o : Owners) : EpUsers := fun e => o.users e

/-- `Owners::new` -/
def Owners.new (users : Endpoint → I32) : Except Error Owners :=
  if h : (users .none).val = 0 ∧ ∀ e ∈ Endpoint.all, 0 ≤ (users e).val then
    .ok
      { users := fun e => (users e).val.toNat
        none_eq := by rw [h.1]; rfl
        le_max := fun e => by
          have := (users e).property.2
          unfold i32Max
          omega }
  else .error .state

/-- One owner less. -/
def Owners.decr (o : Owners) (e : Endpoint) : Owners where
  users := Function.update o.users e (o.users e - 1)
  none_eq := by
    by_cases h : e = .none
    · rw [h, Function.update_self, o.none_eq]
    · rw [Function.update_of_ne (Ne.symm h)]
      exact o.none_eq
  le_max e' := by
    have h := o.le_max e
    by_cases he : e' = e
    · rw [he, Function.update_self]
      omega
    · rw [Function.update_of_ne he]
      exact o.le_max e'

/-- One owner more. -/
def Owners.incr (o : Owners) (e : Endpoint) (he : e ≠ .none) (hlt : o.users e < i32Max) :
    Owners where
  users := Function.update o.users e (o.users e + 1)
  none_eq := by
    rw [Function.update_of_ne (Ne.symm he)]
    exact o.none_eq
  le_max e' := by
    by_cases he' : e' = e
    · rw [he', Function.update_self]
      exact hlt
    · rw [Function.update_of_ne he']
      exact o.le_max e'

/-- Why a transition is not returned: an error, or a write behind the end of the actions. -/
inductive Fault
  | error (e : Error)
  | panic
  deriving DecidableEq

structure Transition where
  next : Owners
  actions : Fin actionCapacity → Action
  actionCount : Nat

/-- `Transition::push` -/
def Transition.push (t : Transition) (a : Action) : Except Fault Transition :=
  if h : t.actionCount < actionCapacity then
    .ok { t with
      actions := Function.update t.actions ⟨t.actionCount, h⟩ a
      actionCount := t.actionCount + 1 }
  else .error .panic

/-- The endpoint that shares a control with another one. -/
def sharedEndpoint : Endpoint → Endpoint
  | .speaker => .earpiece
  | .earpiece => .speaker
  | _ => .none

/-- The first half of `route`: an owner leaves. -/
def Transition.leave (t : Transition) (old : Endpoint) : Except Fault Transition := do
  if old = .none then return t
  else if t.next.users old = 0 then throw (.error .underflow)
  else
    let t := { t with next := t.next.decr old }
    if t.next.users old = 0 ∧ old ≠ .sco then
      let t ← t.push (.disable old)
      let t ← if t.next.users (sharedEndpoint old) > 0 then t.push (.enable (sharedEndpoint old))
        else pure t
      t.push .update
    else return t

/-- The second half: an owner enters. -/
def Transition.enter (t : Transition) (new : Endpoint) : Except Fault Transition := do
  if hn : new = .none then return t
  else if hlt : t.next.users new < i32Max then
    let t := { t with next := t.next.incr new hn hlt }
    if t.next.users new = 1 ∧ new ≠ .sco then
      let t ← t.push (.enable new)
      t.push .update
    else return t
  else throw (.error .overflow)

/-- `Owners::route` -/
def Owners.route (o : Owners) (old new : Endpoint) : Except Fault Transition :=
  let t : Transition := ⟨o, fun _ => .none, 0⟩
  if old = new then .ok t
  else do (← t.leave old).enter new

/-! ### Applying a plan -/

/-- What `apply_endpoint_transition` does for an action: an endpoint without a path is not
switched. -/
def Action.calls : Action → List RouteCall
  | .none => []
  | .enable e => (outputPathName e).elim [] fun path => [.apply path true]
  | .disable e => (outputPathName e).elim [] fun path => [.apply path false]
  | .update => [.update]

/-- The calls for the first `action_count` actions. -/
def Transition.calls (t : Transition) : List RouteCall :=
  ((List.ofFn t.actions).take t.actionCount).flatMap Action.calls

/-- `status` of `audio-hf/rust/ffi.rs`; a panic does not return. -/
def Fault.status : Fault → Option Int
  | .error .endpoint => some (-2)
  | .error .state => some (-3)
  | .error .underflow => some (-4)
  | .error .overflow => some (-5)
  | .panic => .none

/-- `apply_endpoint_transition`: the status of the planner, the counts and the calls. -/
def applyEndpointTransition (users : Endpoint → I32) (old new : Endpoint) :
    Option Int × EpUsers × List RouteCall :=
  match Owners.new users with
  | .error e => ((Fault.error e).status, fun d => (users d).val, [])
  | .ok owners =>
      match owners.route old new with
      | .error fault => (fault.status, fun d => (users d).val, [])
      | .ok plan => (some 0, plan.next.counts, plan.calls)

/-! ### The planner agrees with the C functions -/

section Agreement

/-- An action that has room is applied behind the others. -/
theorem push_ok {t : Transition} (h : t.actionCount < actionCapacity) (a : Action) :
    ∃ t', t.push a = .ok t' ∧ t'.next = t.next ∧ t'.actionCount = t.actionCount + 1 ∧
      t'.calls = t.calls ++ a.calls := by
  refine ⟨_, dif_pos h, rfl, rfl, ?_⟩
  unfold Transition.calls
  dsimp only
  have hlast : (List.ofFn (Function.update t.actions ⟨t.actionCount, h⟩ a))[t.actionCount]? =
      some a := by
    rw [List.getElem?_ofFn, dif_pos h, Function.update_self]
  have hfirst : (List.ofFn (Function.update t.actions ⟨t.actionCount, h⟩ a)).take t.actionCount =
      (List.ofFn t.actions).take t.actionCount := by
    refine List.ext_getElem? fun i => ?_
    rw [List.getElem?_take, List.getElem?_take]
    split
    · rename_i hi
      rw [List.getElem?_ofFn, List.getElem?_ofFn]
      split
      · rename_i hlt
        rw [Function.update_of_ne]
        intro heq
        exact absurd (congrArg Fin.val heq) (Nat.ne_of_lt hi)
      · rfl
    · rfl
  rw [List.take_add_one, hlast, hfirst, List.flatMap_append]
  simp

theorem counts_decr (o : Owners) {e : Endpoint} (h : 0 < o.users e) :
    (o.decr e).counts = Function.update o.counts e (o.counts e - 1) := by
  funext d
  unfold Owners.counts Owners.decr
  dsimp only
  by_cases hd : d = e
  · subst hd
    rw [Function.update_self, Function.update_self]
    omega
  · rw [Function.update_of_ne hd, Function.update_of_ne hd]

theorem counts_incr (o : Owners) {e : Endpoint} (he : e ≠ .none) (h : o.users e < i32Max) :
    (o.incr e he h).counts = Function.update o.counts e (o.counts e + 1) := by
  funext d
  unfold Owners.counts Owners.incr
  dsimp only
  by_cases hd : d = e
  · subst hd
    rw [Function.update_self, Function.update_self]
    omega
  · rw [Function.update_of_ne hd, Function.update_of_ne hd]

/-- The shared endpoint is switched on again by both. -/
theorem sharedPath_eq (o : Owners) {e : Endpoint} :
    sharedPath o.counts e =
      if 0 < o.users (sharedEndpoint e) then (Action.enable (sharedEndpoint e)).calls else [] := by
  have hnone := o.none_eq
  have hpos : ∀ d, (o.counts d > 0 ↔ 0 < o.users d) := fun d => Int.natCast_pos
  unfold sharedPath
  cases e with
  | speaker =>
      simp only [hpos, sharedEndpoint, true_and, reduceCtorEq, false_and, if_false]
      rfl
  | earpiece =>
      simp only [hpos, sharedEndpoint, true_and, reduceCtorEq, false_and, if_false]
      rfl
  | none => simp [sharedEndpoint, hnone]
  | headphone => simp [sharedEndpoint, hnone]
  | sco => simp [sharedEndpoint, hnone]

/-- **Leaving is `endpoint_release`**, with at most three actions. -/
theorem leave_ok {t : Transition} (hroom : t.actionCount + 3 ≤ actionCapacity) {old : Endpoint}
    (hold : old = .none ∨ 0 < t.next.users old) :
    ∃ t', t.leave old = .ok t' ∧ t'.next.counts = (endpointRelease t.next.counts old).1 ∧
      t'.calls = t.calls ++ (endpointRelease t.next.counts old).2 ∧
      t'.actionCount ≤ t.actionCount + 3 ∧ ∀ d, d ≠ old → t'.next.users d = t.next.users d := by
  -- nothing is left, or one owner of `old` goes
  by_cases hn : old = .none
  · refine ⟨t, ?_, ?_, ?_, Nat.le_add_right _ _, fun _ _ => rfl⟩
    · unfold Transition.leave
      rw [if_pos hn]
      rfl
    · unfold endpointRelease
      rw [if_pos hn]
    · unfold endpointRelease
      rw [if_pos hn, List.append_nil]
  · have hpos : 0 < t.next.users old := hold.resolve_left hn
    have hcounts := counts_decr t.next hpos
    have hother : ∀ d, d ≠ old → (t.next.decr old).users d = t.next.users d :=
      fun d hd => Function.update_of_ne hd ..
    have hpos' : t.next.counts old = t.next.users old := rfl
    -- both sides, in terms of the count behind the release
    have hrelease : endpointRelease t.next.counts old =
        if (t.next.decr old).counts old > 0 then ((t.next.decr old).counts, [])
        else
          match outputPathName old with
          | some path => ((t.next.decr old).counts, [RouteCall.apply path false] ++
              sharedPath (t.next.decr old).counts old ++ [RouteCall.update])
          | none => ((t.next.decr old).counts, []) := by
      unfold endpointRelease
      rw [if_neg hn, if_neg (by omega), ← hcounts]
    have hleave : t.leave old =
        if (t.next.decr old).users old = 0 ∧ old ≠ .sco then do
          let t ← Transition.push { t with next := t.next.decr old } (.disable old)
          let t ← if t.next.users (sharedEndpoint old) > 0
            then t.push (.enable (sharedEndpoint old)) else pure t
          t.push .update
        else .ok { t with next := t.next.decr old } := by
      unfold Transition.leave
      rw [if_neg hn, if_neg (by omega)]
      rfl
    have hcount : (t.next.decr old).counts old = (t.next.decr old).users old := rfl
    rw [hleave, hrelease]
    by_cases hlast : (t.next.decr old).users old = 0
    -- SCO has no path of its own
    · by_cases hsco : old = .sco
      · subst hsco
        rw [if_neg (by simp), if_neg (by omega)]
        exact ⟨_, rfl, rfl, (List.append_nil _).symm, Nat.le_add_right _ _, hother⟩
      · obtain ⟨path, hpath⟩ : ∃ path, outputPathName old = some path := by
          cases old with
          | sco => exact absurd rfl hsco
          | _ => exact ⟨_, rfl⟩
        have hdisable : (Action.disable old).calls = [.apply path false] := by
          show (outputPathName old).elim [] _ = _
          rw [hpath]
          rfl
        rw [if_pos ⟨hlast, hsco⟩, if_neg (by omega), hpath]
        dsimp only
        obtain ⟨t₁, h₁, hnext₁, hcount₁, hcalls₁⟩ :=
          push_ok (t := { t with next := t.next.decr old }) (by dsimp only; omega) (.disable old)
        dsimp only at hnext₁ hcount₁
        rw [h₁]
        rw [sharedPath_eq, ← hdisable]
        by_cases hshared : 0 < (t.next.decr old).users (sharedEndpoint old)
        · obtain ⟨t₂, h₂, hnext₂, hcount₂, hcalls₂⟩ :=
            push_ok (t := t₁) (by omega) (.enable (sharedEndpoint old))
          obtain ⟨t₃, h₃, hnext₃, hcount₃, hcalls₃⟩ := push_ok (t := t₂) (by omega) .update
          refine ⟨t₃, ?_, ?_, ?_, by omega, ?_⟩
          · show (do
              let t ← if t₁.next.users (sharedEndpoint old) > 0
                then t₁.push (.enable (sharedEndpoint old)) else pure t₁
              t.push .update) = _
            rw [hnext₁, if_pos hshared, h₂]
            exact h₃
          · rw [hnext₃, hnext₂, hnext₁]
          · rw [hcalls₃, hcalls₂, hcalls₁, if_pos hshared]
            simp only [List.append_assoc]
            rfl
          · rw [hnext₃, hnext₂, hnext₁]
            exact hother
        · obtain ⟨t₂, h₂, hnext₂, hcount₂, hcalls₂⟩ := push_ok (t := t₁) (by omega) .update
          refine ⟨t₂, ?_, ?_, ?_, by omega, ?_⟩
          · show (do
              let t ← if t₁.next.users (sharedEndpoint old) > 0
                then t₁.push (.enable (sharedEndpoint old)) else pure t₁
              t.push .update) = _
            rw [hnext₁, if_neg hshared]
            exact h₂
          · rw [hnext₂, hnext₁]
          · rw [hcalls₂, hcalls₁, if_neg hshared]
            simp only [List.append_assoc, List.nil_append]
            rfl
          · rw [hnext₂, hnext₁]
            exact hother
    · rw [if_neg (by omega), if_pos (by omega)]
      exact ⟨_, rfl, rfl, (List.append_nil _).symm, Nat.le_add_right _ _, hother⟩

/-- **Entering is `endpoint_acquire`**, with at most two actions. -/
theorem enter_ok {t : Transition} (hroom : t.actionCount + 2 ≤ actionCapacity) {new : Endpoint}
    (hnew : new = .none ∨ t.next.users new < i32Max) :
    ∃ t', t.enter new = .ok t' ∧ t'.next.counts = (endpointAcquire t.next.counts new).1 ∧
      t'.calls = t.calls ++ (endpointAcquire t.next.counts new).2 ∧
      t'.actionCount ≤ t.actionCount + 2 := by
  by_cases hn : new = .none
  -- No endpoint is entered: both sides leave everything as it is.
  · refine ⟨t, ?_, ?_, ?_, Nat.le_add_right _ _⟩
    · unfold Transition.enter
      rw [dif_pos hn]
      rfl
    · unfold endpointAcquire
      rw [if_pos hn]
    · unfold endpointAcquire
      rw [if_pos hn, List.append_nil]
  · have hlt : t.next.users new < i32Max := hnew.resolve_left hn
    have hcounts := counts_incr t.next hn hlt
    have hcount : t.next.counts new = t.next.users new := rfl
    have husers : (t.next.incr new hn hlt).users new = t.next.users new + 1 :=
      Function.update_self ..
    -- Both read the same counter, one before and one after it has gone up.
    have hacquire : endpointAcquire t.next.counts new =
        if t.next.counts new > 0 then ((t.next.incr new hn hlt).counts, [])
        else
          match outputPathName new with
          | some path => ((t.next.incr new hn hlt).counts, [.apply path true, .update])
          | none => ((t.next.incr new hn hlt).counts, []) := by
      unfold endpointAcquire
      rw [if_neg hn, ← hcounts]
    have henter : t.enter new =
        if (t.next.incr new hn hlt).users new = 1 ∧ new ≠ .sco then do
          let t ← Transition.push { t with next := t.next.incr new hn hlt } (.enable new)
          t.push .update
        else .ok { t with next := t.next.incr new hn hlt } := by
      unfold Transition.enter
      rw [dif_neg hn, dif_pos hlt]
      rfl
    rw [henter, hacquire]
    -- Only the first user of an endpoint switches its path on.
    by_cases hfirst : t.next.users new = 0
    -- The SCO endpoint has no mixer path, so its first user pushes nothing either.
    · by_cases hsco : new = .sco
      · subst hsco
        rw [if_neg (by simp), if_neg (by omega)]
        exact ⟨_, rfl, rfl, (List.append_nil _).symm, Nat.le_add_right _ _⟩
      · obtain ⟨path, hpath⟩ : ∃ path, outputPathName new = some path := by
          cases new with
          | sco => exact absurd rfl hsco
          | _ => exact ⟨_, rfl⟩
        have henable : (Action.enable new).calls = [.apply path true] := by
          show (outputPathName new).elim [] _ = _
          rw [hpath]
          rfl
        rw [if_pos ⟨by omega, hsco⟩, if_neg (by omega), hpath]
        dsimp only
        -- Two pushes, and the room asked for is what they need.
        obtain ⟨t₁, h₁, hnext₁, hcount₁, hcalls₁⟩ :=
          push_ok (t := { t with next := t.next.incr new hn hlt }) (by dsimp only; omega)
            (.enable new)
        dsimp only at hnext₁ hcount₁
        obtain ⟨t₂, h₂, hnext₂, hcount₂, hcalls₂⟩ := push_ok (t := t₁) (by omega) .update
        refine ⟨t₂, ?_, ?_, ?_, by omega⟩
        · rw [h₁]
          exact h₂
        · rw [hnext₂, hnext₁]
        · rw [hcalls₂, hcalls₁, henable, List.append_assoc]
          rfl
    · rw [if_neg (by omega), if_pos (by omega)]
      exact ⟨_, rfl, rfl, (List.append_nil _).symm, Nat.le_add_right _ _⟩

/-- A transition that overflows is refused. -/
theorem enter_overflow {t : Transition} {new : Endpoint} (hn : new ≠ .none)
    (hmax : ¬ t.next.users new < i32Max) : t.enter new = .error (.error .overflow) := by
  unfold Transition.enter
  rw [dif_neg hn, dif_neg hmax]
  rfl

variable {o : Owners} {old new : Endpoint}

/-- The transitions that do not release what is not owned. -/
def Owned (o : Owners) (old new : Endpoint) : Prop := old = .none ∨ old = new ∨ 0 < o.users old

/-- **A transition within the range of the counts is the one of the C functions.** -/
theorem route_ok (h : Owned o old new) (hroom : old = new ∨ new = .none ∨ o.users new < i32Max) :
    ∃ plan, o.route old new = .ok plan ∧ plan.actionCount ≤ actionCapacity ∧
      (plan.next.counts, plan.calls) = applyOutputRoute o.counts old new := by
  unfold Owners.route applyOutputRoute
  by_cases heq : old = new
  · rw [if_pos heq, if_pos heq]
    exact ⟨_, rfl, Nat.zero_le _, rfl⟩
  · rw [if_neg heq, if_neg heq]
    obtain ⟨t₁, h₁, hcounts₁, hcalls₁, hcount₁, hother⟩ :=
      leave_ok (t := ⟨o, fun _ => .none, 0⟩) (by show 3 ≤ 5; decide) (h.imp_right fun h => h.resolve_left heq)
    dsimp only at hcounts₁ hcalls₁ hcount₁ hother
    have hnew : new = .none ∨ t₁.next.users new < i32Max := by
      rw [hother new (Ne.symm heq)]
      exact hroom.resolve_left heq
    have hcapacity : t₁.actionCount + 2 ≤ actionCapacity := by
      unfold actionCapacity
      omega
    obtain ⟨t₂, h₂, hcounts₂, hcalls₂, hcount₂⟩ := enter_ok hcapacity hnew
    refine ⟨t₂, ?_, by omega, ?_⟩
    · rw [h₁]
      exact h₂
    · unfold releaseAcquire
      dsimp only
      rw [hcounts₂, hcalls₂, hcalls₁, hcounts₁]
      rfl

/-- **A transition out of the range is refused.** -/
theorem route_overflow (h : Owned o old new) (hne : old ≠ new) (hn : new ≠ .none)
    (hmax : ¬ o.users new < i32Max) : o.route old new = .error (.error .overflow) := by
  unfold Owners.route
  rw [if_neg hne]
  obtain ⟨t₁, h₁, -, -, -, hother⟩ :=
    leave_ok (t := ⟨o, fun _ => .none, 0⟩) (by show 3 ≤ 5; decide) (h.imp_right fun h => h.resolve_left hne)
  rw [h₁]
  refine enter_overflow hn ?_
  rw [hother new (Ne.symm hne)]
  exact hmax

theorem new_ok {users : Endpoint → I32} (h : Owners.new users = .ok o) :
    o.counts = fun d => (users d).val := by
  unfold Owners.new at h
  split at h
  · rename_i hvalid
    cases h
    funext d
    have hnonneg : 0 ≤ (users d).val := by
      refine hvalid.2 d ?_
      cases d <;> decide
    exact Int.toNat_of_nonneg hnonneg
  · cases h

end Agreement

/-! ### The mixer over a history -/

/-- **The mixer shows who has owners**, in the hardware too. -/
structure Mixer.Shows (m : Mixer) (users : EpUsers) : Prop where
  updated : m.shown = m.applied
  lol : m.applied .lolMux = if 0 < users .speaker then .playback else .open
  amp : m.applied .extSpeakerAmp = if 0 < users .speaker then .one else .zero
  hpl : m.applied .hplMux = if 0 < users .headphone then .audioPlayback else .open
  hpr : m.applied .hprMux = if 0 < users .headphone then .audioPlayback else .open
  rcv : m.applied .rcvMux = .open ↔ ¬ 0 < users .speaker ∧ ¬ 0 < users .earpiece

section History

variable {m : Mixer} {users : EpUsers}

/-- Counts on the same side of zero show the same. -/
theorem Mixer.Shows.congr (h : m.Shows users) {users' : EpUsers}
    (hsame : ∀ e, 0 < users' e ↔ 0 < users e) : m.Shows users' := by
  refine ⟨h.updated, ?_, ?_, ?_, ?_, ?_⟩
  · simp only [hsame]
    exact h.lol
  · simp only [hsame]
    exact h.amp
  · simp only [hsame]
    exact h.hpl
  · simp only [hsame]
    exact h.hpr
  · simp only [hsame]
    exact h.rcv

/-- A count that stays on its side of zero. -/
theorem update_pos_iff {d : Endpoint} {n : Int} (h : 0 < n ↔ 0 < users d) (e : Endpoint) :
    0 < Function.update users d n e ↔ 0 < users e := by
  by_cases he : e = d
  · subst he
    rw [Function.update_self]
    exact h
  · rw [Function.update_of_ne he]

/-- **An acquisition leaves the mixer showing the owners.** -/
theorem endpointAcquire_shows (h : m.Shows users) {d : Endpoint} (hd : 0 ≤ users d) :
    (m.calls (endpointAcquire users d).2).Shows (endpointAcquire users d).1 := by
  unfold endpointAcquire
  split
  · exact h
  dsimp only
  split
  · exact h.congr (update_pos_iff (by omega))
  rename_i hnone hzero
  obtain ⟨hupdated, hlol, hamp, hhpl, hhpr, hrcv⟩ := h
  have hpos : 0 < users d + 1 := by omega
  cases d with
  | none => exact absurd rfl hnone
  | sco => exact ⟨hupdated, hlol, hamp, hhpl, hhpr, hrcv⟩
  | speaker =>
      refine ⟨rfl, ?_, ?_, hhpl, hhpr, ?_⟩
      · show Value.playback = if 0 < users .speaker + 1 then _ else _
        rw [if_pos hpos]
      · show Value.one = if 0 < users .speaker + 1 then _ else _
        rw [if_pos hpos]
      · show Value.mediaPlayback = .open ↔ ¬ 0 < users .speaker + 1 ∧ _
        exact ⟨nofun, fun h => absurd hpos h.1⟩
  | headphone =>
      refine ⟨rfl, hlol, hamp, ?_, ?_, hrcv⟩
      · show Value.audioPlayback = if 0 < users .headphone + 1 then _ else _
        rw [if_pos hpos]
      · show Value.audioPlayback = if 0 < users .headphone + 1 then _ else _
        rw [if_pos hpos]
  | earpiece =>
      refine ⟨rfl, hlol, hamp, hhpl, hhpr, ?_⟩
      show Value.voicePlayback = .open ↔ _ ∧ ¬ 0 < users .earpiece + 1
      exact ⟨nofun, fun h => absurd hpos h.2⟩

/-- **A release leaves the mixer showing the owners.** -/
theorem endpointRelease_shows (h : m.Shows users) (d : Endpoint) :
    (m.calls (endpointRelease users d).2).Shows (endpointRelease users d).1 := by
  unfold endpointRelease
  split
  · exact h
  split
  · exact h
  dsimp only
  rw [Function.update_self]
  split
  · exact h.congr (update_pos_iff (by omega))
  rename_i hnone hpos hlast
  obtain ⟨hupdated, hlol, hamp, hhpl, hhpr, hrcv⟩ := h
  have hzero : ¬ 0 < users d - 1 := hlast
  cases d with
  | none => exact absurd rfl hnone
  | sco => exact ⟨hupdated, hlol, hamp, hhpl, hhpr, hrcv⟩
  | headphone =>
      refine ⟨rfl, hlol, hamp, ?_, ?_, hrcv⟩
      · show Value.open = if 0 < users .headphone - 1 then _ else _
        rw [if_neg hzero]
      · show Value.open = if 0 < users .headphone - 1 then _ else _
        rw [if_neg hzero]
  | speaker =>
      by_cases hear : 0 < users .earpiece
      · -- the earpiece takes the mux over
        have hshared : sharedPath (Function.update users .speaker (users .speaker - 1)) .speaker =
            [.apply .earpiece true] := if_pos ⟨rfl, hear⟩
        rw [hshared]
        refine ⟨rfl, ?_, ?_, hhpl, hhpr, ?_⟩
        · show Value.open = if 0 < users .speaker - 1 then _ else _
          rw [if_neg hzero]
        · show Value.zero = if 0 < users .speaker - 1 then _ else _
          rw [if_neg hzero]
        · show Value.voicePlayback = .open ↔ _ ∧ ¬ 0 < users .earpiece
          exact ⟨nofun, fun h => absurd hear h.2⟩
      · have hshared : sharedPath (Function.update users .speaker (users .speaker - 1)) .speaker =
            [] := by
          unfold sharedPath
          rw [if_neg fun h => hear h.2, if_neg fun h => absurd h.1 (by decide)]
        rw [hshared]
        refine ⟨rfl, ?_, ?_, hhpl, hhpr, ?_⟩
        · show Value.open = if 0 < users .speaker - 1 then _ else _
          rw [if_neg hzero]
        · show Value.zero = if 0 < users .speaker - 1 then _ else _
          rw [if_neg hzero]
        · show Value.open = .open ↔ ¬ 0 < users .speaker - 1 ∧ ¬ 0 < users .earpiece
          exact ⟨fun _ => ⟨hzero, hear⟩, fun _ => rfl⟩
  | earpiece =>
      by_cases hspk : 0 < users .speaker
      · -- the speaker takes the mux over
        have hshared :
            sharedPath (Function.update users .earpiece (users .earpiece - 1)) .earpiece =
              [.apply .speaker true] := by
          unfold sharedPath
          rw [if_neg fun h => absurd h.1 (by decide), if_pos ⟨rfl, hspk⟩]
        rw [hshared]
        refine ⟨rfl, ?_, ?_, hhpl, hhpr, ?_⟩
        · show Value.playback = if 0 < users .speaker then _ else _
          rw [if_pos hspk]
        · show Value.one = if 0 < users .speaker then _ else _
          rw [if_pos hspk]
        · show Value.mediaPlayback = .open ↔ ¬ 0 < users .speaker ∧ _
          exact ⟨nofun, fun h => absurd hspk h.1⟩
      · have hshared :
            sharedPath (Function.update users .earpiece (users .earpiece - 1)) .earpiece = [] := by
          unfold sharedPath
          rw [if_neg fun h => absurd h.1 (by decide), if_neg fun h => hspk h.2]
        rw [hshared]
        refine ⟨rfl, hlol, hamp, hhpl, hhpr, ?_⟩
        show Value.open = .open ↔ ¬ 0 < users .speaker ∧ ¬ 0 < users .earpiece - 1
        exact ⟨fun _ => ⟨hspk, hzero⟩, fun _ => rfl⟩

/-- **The C functions keep what the mixer shows.** -/
theorem applyOutputRoute_shows (h : m.Shows users) (hnonneg : ∀ e, 0 ≤ users e)
    (old new : Endpoint) :
    (m.calls (applyOutputRoute users old new).2).Shows (applyOutputRoute users old new).1 := by
  unfold applyOutputRoute
  split
  · exact h
  unfold releaseAcquire
  have hreleased := endpointRelease_shows h old
  have hleft : 0 ≤ (endpointRelease users old).1 new := by
    have hnew := hnonneg new
    unfold endpointRelease
    split
    · exact hnew
    split
    · exact hnew
    have hdecr : 0 ≤ Function.update users old (users old - 1) new := by
      by_cases he : new = old
      · subst he
        rw [Function.update_self]
        omega
      · rw [Function.update_of_ne he]
        exact hnew
    dsimp only
    split
    · exact hdecr
    split
    · exact hdecr
    · exact hdecr
  have hacquired := endpointAcquire_shows hreleased hleft
  rw [← Mixer.calls_append] at hacquired
  exact hacquired

end History

/-- A history of transitions, each of which is planned and then applied. -/
inductive History : Owners → Mixer → Owners → Mixer → Prop
  | nil (o : Owners) (m : Mixer) : History o m o m
  | snoc {o o' : Owners} {m m' : Mixer} {old new : Endpoint} {plan : Transition}
      (h : History o m o' m') (hplan : o'.route old new = .ok plan) :
      History o m plan.next (m'.calls plan.calls)

/-- What a successful transition needs. -/
theorem owned_of_route {o : Owners} {old new : Endpoint} {plan : Transition}
    (h : o.route old new = .ok plan) :
    Owned o old new ∧ (old = new ∨ new = .none ∨ o.users new < i32Max) := by
  by_cases heq : old = new
  · exact ⟨.inr (.inl heq), .inl heq⟩
  have howned : Owned o old new := by
    by_contra hnot
    unfold Owned at hnot
    obtain ⟨hn, hpos⟩ : old ≠ .none ∧ o.users old = 0 := by
      refine ⟨fun h => hnot (.inl h), ?_⟩
      have := mt (fun h => Or.inr (Or.inr h)) hnot
      omega
    unfold Owners.route Transition.leave at h
    rw [if_neg heq, if_neg hn, if_pos hpos] at h
    cases h
  refine ⟨howned, .inr ?_⟩
  by_contra hnot
  rw [not_or] at hnot
  rw [route_overflow howned heq hnot.1 hnot.2] at h
  cases h

/-- **Over every history the mixer shows who has owners.** -/
theorem History.shows {o o' : Owners} {m m' : Mixer} (h : History o m o' m')
    (hshows : m.Shows o.counts) : m'.Shows o'.counts := by
  induction h with
  | nil => exact hshows
  | @snoc o' m m' old new plan h hplan ih =>
      obtain ⟨howned, hroom⟩ := owned_of_route hplan
      obtain ⟨plan', hplan', -, hsame⟩ := route_ok howned hroom
      rw [hplan] at hplan'
      cases hplan'
      have hnext := applyOutputRoute_shows (ih hshows) (fun e => Int.natCast_nonneg _) old new
      rw [← hsame] at hnext
      exact hnext

/-- All output paths are off. -/
structure Mixer.Off (m : Mixer) : Prop where
  updated : m.shown = m.applied
  lol : m.applied .lolMux = .open
  amp : m.applied .extSpeakerAmp = .zero
  hpl : m.applied .hplMux = .open
  hpr : m.applied .hprMux = .open
  rcv : m.applied .rcvMux = .open

theorem Mixer.Off.shows {m : Mixer} (h : m.Off) {o : Owners} (ho : ∀ e, o.users e = 0) :
    m.Shows o.counts := by
  have hnone : ∀ e, ¬ 0 < o.counts e := by
    intro e
    unfold Owners.counts
    rw [ho]
    decide
  refine ⟨h.updated, ?_, ?_, ?_, ?_, ?_⟩
  · rw [if_neg (hnone _)]
    exact h.lol
  · rw [if_neg (hnone _)]
    exact h.amp
  · rw [if_neg (hnone _)]
    exact h.hpl
  · rw [if_neg (hnone _)]
    exact h.hpr
  · exact ⟨fun _ => ⟨hnone _, hnone _⟩, fun _ => h.rcv⟩

/-- **The planner refines the C router and the mixer.** A transition that releases only what is
owned succeeds exactly when the count of the new endpoint stays in range; its counts and calls
are then those of `apply_output_route`, its actions fit, and a transition that fails applies
nothing. Over every history from the state with all paths off, the mixer shows who has owners. -/
theorem route_refines :
    (∀ (counts : Endpoint → I32) (o : Owners), Owners.new counts = .ok o →
      ∀ old new, Owned o old new →
        ((∃ plan, o.route old new = .ok plan) ↔
          old = new ∨ new = .none ∨ o.users new < i32Max) ∧
        (∀ plan, o.route old new = .ok plan → plan.actionCount ≤ actionCapacity ∧
          (plan.next.counts, plan.calls) = applyOutputRoute (fun d => (counts d).val) old new ∧
          applyEndpointTransition counts old new = (some 0, plan.next.counts, plan.calls)) ∧
        ∀ fault, o.route old new = .error fault → ∃ status, status ≠ 0 ∧
          applyEndpointTransition counts old new =
            (some status, (fun d => (counts d).val), [])) ∧
      ∀ o m o' m', History o m o' m' → (∀ e, o.users e = 0) → m.Off → m'.Shows o'.counts := by
  refine ⟨?_, fun o m o' m' h ho hoff => h.shows (hoff.shows ho)⟩
  intro counts o hnew old new howned
  have hcounts := new_ok hnew
  refine ⟨⟨?_, ?_⟩, ?_, ?_⟩
  · rintro ⟨plan, hplan⟩
    -- A plan exists only with room for the new owner,
    exact (owned_of_route hplan).2
  · intro hroom
    -- and always with it.
    obtain ⟨plan, hplan, -⟩ := route_ok howned hroom
    exact ⟨plan, hplan⟩
  · intro plan hplan
    obtain ⟨plan', hplan', hcount, hsame⟩ := route_ok howned (owned_of_route hplan).2
    rw [hplan] at hplan'
    cases hplan'
    rw [hcounts] at hsame
    refine ⟨hcount, hsame, ?_⟩
    unfold applyEndpointTransition
    rw [hnew]
    dsimp only
    rw [hplan]
  · intro fault hfault
    by_cases hroom : old = new ∨ new = .none ∨ o.users new < i32Max
    · obtain ⟨plan, hplan, -⟩ := route_ok howned hroom
      rw [hplan] at hfault
      cases hfault
    · rw [not_or, not_or] at hroom
      -- The one fault that is left is the overflow of the new count.
      have hover := route_overflow howned hroom.1 hroom.2.1 hroom.2.2
      refine ⟨-5, by decide, ?_⟩
      unfold applyEndpointTransition
      rw [hnew]
      dsimp only
      rw [hover]
      rfl

/-- One owner of the speaker. -/
def speakerOnly : Endpoint → I32
  | .speaker => ⟨1, by decide⟩
  | _ => ⟨0, by decide⟩

def speakerOwner : Owners where
  users e := (speakerOnly e).val.toNat
  none_eq := rfl
  le_max e := by cases e <;> decide

theorem new_speakerOnly : Owners.new speakerOnly = .ok speakerOwner := by
  unfold Owners.new
  rw [dif_pos (by decide)]
  rfl

/-- No owners, and all paths off. -/
def ownerless : Owners where
  users _ := 0
  none_eq := rfl
  le_max _ := by decide

def offMixer : Mixer :=
  let off : Control → Value := fun control => if control = .extSpeakerAmp then .zero else .open
  ⟨off, off⟩

/-- The speaker gets an owner, who moves to the earpiece: behind both, the mixer shows it. -/
theorem route_refines_speaker :
    Owned speakerOwner .speaker .earpiece ∧
      (∃ plan, speakerOwner.route .speaker .earpiece = .ok plan ∧
        (plan.next.counts, plan.calls) =
          applyOutputRoute (fun d => (speakerOnly d).val) .speaker .earpiece) ∧
      ∃ first second, ownerless.route .none .speaker = .ok first ∧
        first.next.route .speaker .earpiece = .ok second ∧
        (offMixer.calls first.calls).shown .lolMux = .playback ∧
        ((offMixer.calls first.calls).calls second.calls).shown .lolMux = .open ∧
        ((offMixer.calls first.calls).calls second.calls).shown .rcvMux ≠ .open := by
  have howned : Owned speakerOwner .speaker .earpiece := .inr (.inr (by decide))
  obtain ⟨hok, hplans, -⟩ := route_refines.1 speakerOnly _ new_speakerOnly _ _ howned
  obtain ⟨plan, hplan⟩ := hok.mpr (.inr (.inr (by decide)))
  have hoff : offMixer.Off := ⟨rfl, rfl, rfl, rfl, rfl, rfl⟩
  obtain ⟨first, hfirst, hspeaker⟩ : ∃ first, ownerless.route .none .speaker = .ok first ∧
      ∀ e, first.next.users e = speakerOwner.users e :=
    ⟨_, rfl, fun e => by cases e <;> rfl⟩
  obtain ⟨second, hsecond, hearpiece⟩ : ∃ second,
      first.next.route .speaker .earpiece = .ok second ∧
        ∀ e, second.next.users e = if e = .earpiece then 1 else 0 := by
    cases hfirst
    exact ⟨_, rfl, fun e => by cases e <;> rfl⟩
  have hhistory : History ownerless offMixer first.next (offMixer.calls first.calls) :=
    .snoc (.nil _ _) hfirst
  have hshows := route_refines.2 _ _ _ _ hhistory (fun _ => rfl) hoff
  have hshows' := route_refines.2 _ _ _ _ (hhistory.snoc hsecond) (fun _ => rfl) hoff
  refine ⟨howned, ⟨plan, hplan, (hplans plan hplan).2.1⟩, first, second, hfirst, hsecond, ?_, ?_, ?_⟩
  · rw [hshows.updated, hshows.lol, Owners.counts, hspeaker]
    rfl
  · rw [hshows'.updated, hshows'.lol, Owners.counts, hearpiece]
    rfl
  · rw [hshows'.updated, ne_eq, hshows'.rcv, Owners.counts, Owners.counts, hearpiece, hearpiece]
    decide

/-- For a transition to the same endpoint the C router does nothing either, where releasing and
acquiring it would switch it off and on. -/
theorem route_not_releaseAcquire :
    ¬ ∀ (counts : Endpoint → I32) (o : Owners), Owners.new counts = .ok o →
      ∀ old new, Owned o old new → ∀ plan, o.route old new = .ok plan →
        (plan.next.counts, plan.calls) = releaseAcquire (fun d => (counts d).val) old new := by
  intro hclaim
  have hsame := hclaim speakerOnly _ new_speakerOnly .speaker .speaker (.inr (.inl rfl)) _ rfl
  have hcalls := congrArg Prod.snd hsame
  revert hcalls
  decide

end Mindone.Audio
