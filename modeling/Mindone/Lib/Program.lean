import Mathlib.Logic.Relation

/-!
# Mindone.Lib.Program

Rules for programs with a state that can stop with an error and then **keep the
state they reached** (`EStateM`). `Ends p s Q E` says where the program `p` ends
from the state `s`: in `Q` when it returns, in `E` when it stops. The rules below
take a program apart along its text, and the loop rule is the usual one with an
invariant.
-/

namespace Mindone.Lib

universe u

variable {ε S α β : Type u}

/-- The state a program ends in, whether it returned or stopped. -/
def endState : EStateM.Result ε S α → S
  | .ok _ s => s
  | .error _ s => s

/-- From `s` the program returns within `Q` or stops within `E`. It is
irreducible, so that a goal never evaluates the program it is about. -/
@[irreducible] def Ends (p : EStateM ε S α) (s : S) (Q : α → S → Prop) (E : ε → S → Prop) : Prop :=
  match p s with
  | .ok a s' => Q a s'
  | .error e s' => E e s'

section Rules

variable {p : EStateM ε S α} {f : α → EStateM ε S β} {s : S}
variable {Q Q' : α → S → Prop} {E E' : ε → S → Prop} {R : β → S → Prop}

theorem ends_of_ok {a : α} {s' : S} (h : p s = .ok a s') : Ends p s Q E ↔ Q a s' := by
  unfold Ends
  rw [h]

theorem ends_of_error {e : ε} {s' : S} (h : p s = .error e s') : Ends p s Q E ↔ E e s' := by
  unfold Ends
  rw [h]

/-- The rest of a program runs from where its first part returned. -/
theorem run_bind_ok {a : α} {s' : S} (h : p s = .ok a s') : (p >>= f) s = f a s' := by
  show EStateM.bind p f s = _
  unfold EStateM.bind
  rw [h]

theorem run_bind_error {e : ε} {s' : S} (h : p s = .error e s') :
    (p >>= f) s = .error e s' := by
  show EStateM.bind p f s = _
  unfold EStateM.bind
  rw [h]

/-- The rest of a program only sees the result of its first part. -/
theorem run_bind_congr {q : EStateM ε S α} {s' : S} (h : p s = q s') :
    (p >>= f) s = (q >>= f) s' := by
  show EStateM.bind p f s = EStateM.bind q f s'
  unfold EStateM.bind
  rw [h]

theorem run_get_bind {f : S → EStateM ε S β} : (get >>= f) s = f s s := rfl

theorem run_set_bind {s' : S} {f : PUnit → EStateM ε S β} : (set s' >>= f) s = f ⟨⟩ s' := rfl

/-- Programs with the same result end alike. -/
theorem ends_congr {q : EStateM ε S α} {s' : S} (h : p s = q s') :
    Ends p s Q E ↔ Ends q s' Q E := by
  unfold Ends
  rw [h]

@[simp] theorem ends_pure (a : α) : Ends (pure a) s Q E ↔ Q a s := by
  unfold Ends
  rfl

@[simp] theorem ends_throw (e : ε) : Ends (throw e : EStateM ε S α) s Q E ↔ E e s := by
  unfold Ends
  rfl

@[simp] theorem ends_get {Q : S → S → Prop} : Ends (get : EStateM ε S S) s Q E ↔ Q s s := by
  unfold Ends
  rfl

@[simp] theorem ends_set {s' : S} {Q : PUnit → S → Prop} :
    Ends (set s' : EStateM ε S PUnit) s Q E ↔ Q ⟨⟩ s' := by
  unfold Ends
  rfl

@[simp] theorem ends_modify {f : S → S} {Q : PUnit → S → Prop} :
    Ends (modify f : EStateM ε S PUnit) s Q E ↔ Q ⟨⟩ (f s) := by
  unfold Ends
  rfl

@[simp] theorem ends_bind :
    Ends (p >>= f) s R E ↔ Ends p s (fun a s' => Ends (f a) s' R E) E := by
  show Ends (EStateM.bind p f) s R E ↔ _
  unfold Ends EStateM.bind
  cases p s with
  | ok a s' => rfl
  | error e s' => rfl

@[simp] theorem ends_map {g : α → β} :
    Ends (g <$> p) s R E ↔ Ends p s (fun a s' => R (g a) s') E := by
  show Ends (EStateM.map g p) s R E ↔ _
  unfold Ends EStateM.map
  cases p s with
  | ok a s' => rfl
  | error e s' => rfl

theorem ends_ite {c : Prop} [Decidable c] {q : EStateM ε S α} :
    Ends (if c then p else q) s Q E ↔ if c then Ends p s Q E else Ends q s Q E := by
  split
  · rfl
  · rfl

/-- A weaker postcondition. -/
theorem Ends.mono (h : Ends p s Q E) (hQ : ∀ a s', Q a s' → Q' a s')
    (hE : ∀ e s', E e s' → E' e s') : Ends p s Q' E' := by
  unfold Ends at h ⊢
  cases hp : p s with
  | ok a s' =>
      rw [hp] at h
      exact hQ a s' h
  | error e s' =>
      rw [hp] at h
      exact hE e s' h

theorem ends_true (p : EStateM ε S α) (s : S) : Ends p s (fun _ _ => True) fun _ _ => True := by
  unfold Ends
  cases p s with
  | ok a s' => trivial
  | error e s' => trivial

/-- What holds at every end holds of the end state. -/
theorem ends_endState {P : S → Prop} :
    Ends p s (fun _ => P) (fun _ => P) ↔ P (endState (p s)) := by
  unfold Ends
  cases p s with
  | ok a s' => rfl
  | error e s' => rfl

/-- Forgetting the result does not change the end state. -/
theorem endState_bind_pure (p : EStateM ε S α) (b : β) (s : S) :
    endState ((p >>= fun _ => pure b) s) = endState (p s) := by
  show endState (EStateM.bind p (fun _ => EStateM.pure b) s) = _
  unfold EStateM.bind
  cases p s with
  | ok a s' => rfl
  | error e s' => rfl

/-- A program that cannot return stops. -/
theorem Ends.exists_error (h : Ends p s (fun _ _ => False) E) :
    ∃ e s', p s = .error e s' ∧ E e s' := by
  unfold Ends at h
  cases hp : p s with
  | ok a s' =>
      rw [hp] at h
      exact h.elim
  | error e s' =>
      rw [hp] at h
      exact ⟨e, s', rfl, h⟩

/-- What holds wherever a program returns holds of the result it gives. -/
theorem Ends.of_ok (h : Ends p s Q E) {a : α} {s' : S} (hp : p s = .ok a s') : Q a s' := by
  unfold Ends at h
  rw [hp] at h
  exact h

/-- What holds wherever a program stops holds of the error it gives. -/
theorem Ends.of_error (h : Ends p s Q E) {e : ε} {s' : S} (hp : p s = .error e s') : E e s' := by
  unfold Ends at h
  rw [hp] at h
  exact h

/-- The postcondition may also speak of the result itself. -/
theorem Ends.traced (h : Ends p s Q E) :
    Ends p s (fun a s' => p s = .ok a s' ∧ Q a s') fun e s' => p s = .error e s' ∧ E e s' := by
  unfold Ends at h ⊢
  cases hp : p s with
  | ok a s' =>
      rw [hp] at h
      exact ⟨rfl, h⟩
  | error e s' =>
      rw [hp] at h
      exact ⟨rfl, h⟩

/-- The invariant rule for a loop over a list that does not stop early: `I rest s`
holds when the elements `rest` are still to come. -/
theorem ends_forM {body : α → EStateM ε S PUnit} {I : List α → S → Prop} {xs : List α}
    (hbody : ∀ x rest s, I (x :: rest) s → Ends (body x) s (fun _ s' => I rest s') E)
    (h : I xs s) : Ends (xs.forM body) s (fun _ s' => I [] s') E := by
  induction xs generalizing s with
  | nil => exact (ends_pure _).mpr h
  | cons x rest ih =>
      refine ends_bind.mpr ?_
      exact (hbody x rest s h).mono (fun _ s' h' => ih h') fun _ _ h' => h'

/-- Two postconditions at once. -/
theorem Ends.and (h : Ends p s Q E) (h' : Ends p s Q' E') :
    Ends p s (fun a s' => Q a s' ∧ Q' a s') fun e s' => E e s' ∧ E' e s' := by
  unfold Ends at h h' ⊢
  cases hp : p s with
  | ok a s' =>
      rw [hp] at h h'
      exact ⟨h, h'⟩
  | error e s' =>
      rw [hp] at h h'
      exact ⟨h, h'⟩

/-! ### Programs that keep an invariant

`I` is kept while the program goes on; where it stops with an error, the weaker `J` is
all that is left. -/

variable {I J : S → Prop}

def Keeps (I J : S → Prop) (p : EStateM ε S α) : Prop :=
  ∀ s, I s → Ends p s (fun _ s' => I s') fun _ s' => J s'

theorem keeps_pure (a : α) : Keeps I J (pure a : EStateM ε S α) :=
  fun _ hs => (ends_pure a).mpr hs

theorem keeps_throw (hJ : ∀ s, I s → J s) (e : ε) : Keeps I J (throw e : EStateM ε S α) :=
  fun s hs => (ends_throw e).mpr (hJ s hs)

theorem keeps_get : Keeps I J (get : EStateM ε S S) :=
  fun _ hs => ends_get.mpr hs

theorem keeps_modify {f : S → S} (hf : ∀ s, I s → I (f s)) : Keeps I J (modify f : EStateM ε S PUnit) :=
  fun s hs => ends_modify.mpr (hf s hs)

theorem Keeps.bind (hp : Keeps I J p) (hf : ∀ a, Keeps I J (f a)) : Keeps I J (p >>= f) :=
  fun s hs => ends_bind.mpr ((hp s hs).mono (fun a s' hs' => hf a s' hs') fun _ _ hs' => hs')

theorem keeps_ite {c : Prop} [Decidable c] {q : EStateM ε S α} (hp : c → Keeps I J p)
    (hq : ¬ c → Keeps I J q) : Keeps I J (if c then p else q) := by
  split
  · rename_i hc
    exact hp hc
  · rename_i hc
    exact hq hc

/-- A part of a program that runs only if the condition holds. -/
def onlyIf (c : Prop) [Decidable c] (p : EStateM ε S PUnit) : EStateM ε S PUnit :=
  if c then p else pure ⟨⟩

theorem keeps_onlyIf {c : Prop} [Decidable c] {p : EStateM ε S PUnit} (hp : Keeps I J p) :
    Keeps I J (onlyIf c p) := keeps_ite (fun _ => hp) fun _ => keeps_pure _

theorem keeps_forM {body : α → EStateM ε S PUnit} (hbody : ∀ x, Keeps I J (body x))
    (xs : List α) : Keeps I J (xs.forM body) := by
  induction xs with
  | nil => exact keeps_pure _
  | cons x rest ih => exact (hbody x).bind fun _ => ih

end Rules

/-! ### Runs of a transition relation -/

section Invariant

variable {Step : S → S → Prop} {I : S → Prop}

/-- What every step preserves, every run preserves. -/
theorem invariant_of_steps (hstep : ∀ s s', Step s s' → I s → I s') {s s' : S}
    (h : Relation.ReflTransGen Step s s') (hs : I s) : I s' := by
  induction h with
  | refl => exact hs
  | tail _ hlast ih => exact hstep _ _ hlast ih

end Invariant

end Mindone.Lib
