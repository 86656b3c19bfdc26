import Mindone.Lib.Program
import Mathlib.Data.List.Basic
import Mathlib.Algebra.Ring.Nat

/-!
# Mindone.Lib.Checked

Programs whose indices and sums are checked as they run: a program that cannot go on **panics**, one
that refuses its input stops with an error of its own. `Stop` keeps the two apart, so that "no index
goes out of range" is a statement about the program and not a promise of the model.
-/

namespace Mindone.Lib

/-- How a program stops. -/
inductive Stop (ε : Type) where
  | panic
  | error (e : ε)
  deriving DecidableEq

namespace Checked

variable {ε : Type}

/-- The largest number that an index can hold, and one. -/
def indexLimit : Nat := 2 ^ 64

/-- A sum of indices. -/
def add (a b : Nat) : Except (Stop ε) Nat := if a + b < indexLimit then .ok (a + b) else .error .panic

/-- A difference of indices. -/
def sub (a b : Nat) : Except (Stop ε) Nat := if b ≤ a then .ok (a - b) else .error .panic

/-- The slice from `start` to `stop`. -/
def slice (bytes : List UInt8) (start stop : Nat) : Except (Stop ε) (List UInt8) :=
  if start ≤ stop ∧ stop ≤ bytes.length then .ok ((bytes.drop start).take (stop - start))
  else .error .panic

/-- The slice from `start` to `stop` becomes `source`, which is of the same length. -/
def copyFromSlice (start stop : Nat) (source : List UInt8) :
    EStateM (Stop ε) (List UInt8) PUnit := do
  let output ← get
  if start ≤ stop ∧ stop ≤ output.length ∧ source.length = stop - start then
    set (output.take start ++ source ++ output.drop stop)
  else throw .panic

/-! ### Rules

`Gives p Q E` says that the program does not panic: it returns within `Q` or refuses within `E`. -/

section Rules

variable {α β : Type} {p : Except (Stop ε) α} {f : α → Except (Stop ε) β}
variable {Q Q' : α → Prop} {E E' : ε → Prop} {R : β → Prop}

@[irreducible] def Gives (p : Except (Stop ε) α) (Q : α → Prop) (E : ε → Prop) : Prop :=
  match p with
  | .ok a => Q a
  | .error .panic => False
  | .error (.error e) => E e

@[simp] theorem gives_pure (a : α) : Gives (pure a) Q E ↔ Q a := by
  unfold Gives
  rfl

@[simp] theorem gives_throw (e : ε) : Gives (throw (.error e)) Q E ↔ E e := by
  unfold Gives
  rfl

@[simp] theorem gives_bind : Gives (p >>= f) R E ↔ Gives p (fun a => Gives (f a) R E) E := by
  show Gives (Except.bind p f) R E ↔ _
  unfold Gives Except.bind
  cases p with
  | ok a => rfl
  | error stop => cases stop <;> rfl

theorem gives_ite {c : Prop} [Decidable c] {q : Except (Stop ε) α} :
    Gives (if c then p else q) Q E ↔ if c then Gives p Q E else Gives q Q E := by
  split <;> rfl

theorem Gives.mono (h : Gives p Q E) (hQ : ∀ a, Q a → Q' a) (hE : ∀ e, E e → E' e) :
    Gives p Q' E' := by
  unfold Gives at h ⊢
  split
  · exact hQ _ h
  · exact h
  · exact hE _ h

/-- What holds wherever a program returns holds of the result it gives. -/
theorem Gives.of_ok (h : Gives p Q E) {a : α} (hp : p = .ok a) : Q a := by
  unfold Gives at h
  rw [hp] at h
  exact h

theorem Gives.ne_panic (h : Gives p Q E) : p ≠ .error .panic := by
  unfold Gives at h
  rintro rfl
  exact h

/-- A program that does not refuse returns. -/
theorem Gives.exists_ok (h : Gives p Q fun _ => False) : ∃ a, p = .ok a ∧ Q a := by
  unfold Gives at h
  split at h
  · exact ⟨_, rfl, h⟩
  · exact h.elim
  · exact h.elim

variable {a b start stop : Nat} {bytes : List UInt8}

theorem gives_add {Q : Nat → Prop} (h : a + b < indexLimit) : Gives (add a b) Q E ↔ Q (a + b) := by
  unfold add
  rw [if_pos h]
  exact gives_pure _

theorem gives_sub {Q : Nat → Prop} (h : b ≤ a) : Gives (sub a b) Q E ↔ Q (a - b) := by
  unfold sub
  rw [if_pos h]
  exact gives_pure _

theorem gives_slice {Q : List UInt8 → Prop} (h : start ≤ stop) (h' : stop ≤ bytes.length) :
    Gives (slice bytes start stop) Q E ↔ Q ((bytes.drop start).take (stop - start)) := by
  unfold slice
  rw [if_pos ⟨h, h'⟩]
  exact gives_pure _

/-! ### Readers

A reader is described by what it returns: **`Reads p S` says that `p` does not panic, returns
nothing outside of `S`, and everything in it.** `S` holds of one value at most, then. -/

structure Reads (p : Except (Stop ε) α) (S : α → Prop) : Prop where
  no_panic : p ≠ .error .panic
  iff : ∀ a, p = .ok a ↔ S a

variable {S : α → Prop} {T : α → β → Prop}

theorem reads_pure (a : α) : Reads (pure a : Except (Stop ε) α) (· = a) where
  no_panic := by rintro ⟨⟩
  iff b := by
    constructor
    · rintro ⟨⟩
      rfl
    · rintro rfl
      rfl

theorem reads_throw (e : ε) : Reads (throw (.error e) : Except (Stop ε) α) fun _ => False where
  no_panic := by rintro ⟨⟩
  iff b := by
    constructor
    · rintro ⟨⟩
    · exact False.elim

theorem Reads.bind (hp : Reads p S) (hf : ∀ a, S a → Reads (f a) (T a)) :
    Reads (p >>= f) fun b => ∃ a, S a ∧ T a b := by
  cases p with
  | ok a =>
      have ha : S a := (hp.iff a).mp rfl
      refine ⟨(hf a ha).no_panic, fun b => ?_⟩
      constructor
      · intro h
        exact ⟨a, ha, ((hf a ha).iff b).mp h⟩
      · rintro ⟨a', ha', hb⟩
        obtain rfl := Except.ok.inj ((hp.iff a').mpr ha')
        exact ((hf a ha).iff b).mpr hb
  | error stop =>
      refine ⟨hp.no_panic ∘ fun h => by cases h; rfl, fun b => ?_⟩
      constructor
      · intro h
        cases h
      · rintro ⟨a, ha, -⟩
        cases (hp.iff a).mpr ha

/-- What comes behind a reader that returns one value only. -/
theorem Reads.bind_eq {a : α} (hp : Reads p (· = a)) (hf : Reads (f a) R) : Reads (p >>= f) R := by
  have h := (hp.iff a).mpr rfl
  subst h
  exact hf

theorem Reads.congr {S' : α → Prop} (h : Reads p S) (hS : ∀ a, S a ↔ S' a) : Reads p S' :=
  ⟨h.no_panic, fun a => (h.iff a).trans (hS a)⟩

/-- A reader that refuses when a condition holds. -/
theorem Reads.unless {c : Prop} [Decidable c] {e : ε} (h : ¬ c → Reads p S) :
    Reads (if c then throw (.error e) else p) fun a => ¬ c ∧ S a := by
  split
  · rename_i hc
    exact (reads_throw e).congr fun a => ⟨False.elim, fun ha => ha.1 hc⟩
  · rename_i hc
    exact (h hc).congr fun a => ⟨fun ha => ⟨hc, ha⟩, And.right⟩

theorem reads_slice (h : start ≤ stop) (h' : stop ≤ bytes.length) :
    Reads (slice bytes start stop : Except (Stop ε) _)
      (· = (bytes.drop start).take (stop - start)) := by
  unfold slice
  rw [if_pos ⟨h, h'⟩]
  exact reads_pure _

end Rules

/-! ### Programs that fill a text -/

section Output

variable {α S : Type} {p : Except (Stop ε) α} {s : S} {Q : α → S → Prop} {E : ε → S → Prop}

/-- The program refuses, and does not panic. -/
def Refuses (E : ε → S → Prop) (stop : Stop ε) (s : S) : Prop := ∃ e, stop = .error e ∧ E e s

theorem ends_ofExcept (h : Gives p (Q · s) (E · s)) :
    Ends (ofExcept p : EStateM (Stop ε) S α) s Q (Refuses E) := by
  unfold Gives at h
  cases p with
  | ok a => exact (ends_pure a).mpr h
  | error stop =>
      cases stop with
      | panic => exact h.elim
      | error e => exact (ends_throw _).mpr ⟨e, rfl, h⟩

theorem ends_copyFromSlice {start stop : Nat} {source output : List UInt8}
    {Q : PUnit → List UInt8 → Prop} {E : ε → List UInt8 → Prop} (h : start ≤ stop)
    (h' : stop ≤ output.length) (hsource : source.length = stop - start)
    (hQ : Q ⟨⟩ (output.take start ++ source ++ output.drop stop)) :
    Ends (copyFromSlice start stop source) output Q (Refuses E) := by
  unfold copyFromSlice
  rw [ends_bind, ends_get, if_pos ⟨h, h', hsource⟩, ends_set]
  exact hQ

/-- The part behind the front is replaced, and becomes part of it. -/
theorem ends_copy_append {start stop : Nat} {front old source rest : List UInt8}
    {Q : PUnit → List UInt8 → Prop} {E : ε → List UInt8 → Prop} (hstart : front.length = start)
    (hstop : start + old.length = stop) (hsource : source.length = old.length)
    (hQ : Q ⟨⟩ ((front ++ source) ++ rest)) :
    Ends (copyFromSlice start stop source) (front ++ (old ++ rest)) Q (Refuses E) := by
  refine ends_copyFromSlice (by omega) ?_ (by omega) ?_
  · simp only [List.length_append]
    omega
  · have hfront : (front ++ (old ++ rest)).take start = front := List.take_left' hstart
    have hrest : (front ++ (old ++ rest)).drop stop = rest := by
      rw [← List.append_assoc, List.drop_left' (by rw [List.length_append]; omega)]
    rwa [hfront, hrest]

end Output

end Checked

end Mindone.Lib
