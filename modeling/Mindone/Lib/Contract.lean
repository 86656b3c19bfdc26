import Mindone.Lib.Dialogue

/-!
# Mindone.Lib.Contract

Assumptions and guarantees between a dialogue and its environment. A `Contract` keeps an account
of the calls that were made: it says what a program may ask for, what the environment promises
in its answers, and how an answered call changes the account. A program **keeps** a contract
when it asks only for what it may, as long as the environment keeps its promises. The transcript
of such a program then obeys the contract as a whole (`Keeps.obeys`).
-/

namespace Mindone.Lib

variable {Call : Type} {Answer : Call → Type} {α β σ ω : Type}

/-- The account of an interface, with the obligations of both sides. -/
structure Contract (Call : Type) (Answer : Call → Type) (σ : Type) where
  asks : σ → Call → Prop
  promises : σ → (c : Call) → Answer c → Prop
  after : σ → (c : Call) → Answer c → σ

namespace Contract

variable (K : Contract Call Answer σ)

/-- The account behind a transcript. -/
def account (s : σ) (entries : List (Sigma Answer)) : σ :=
  entries.foldl (fun s entry => K.after s entry.1 entry.2) s

/-- The environment has kept its promises. -/
def Honours : σ → List (Sigma Answer) → Prop
  | _, [] => True
  | s, ⟨c, answer⟩ :: rest => K.promises s c answer ∧ Honours (K.after s c answer) rest

/-- The program has asked only for what it may. -/
def Obeys : σ → List (Sigma Answer) → Prop
  | _, [] => True
  | s, ⟨c, answer⟩ :: rest => K.asks s c ∧ Obeys (K.after s c answer) rest

@[simp] theorem account_append (s : σ) (xs ys : List (Sigma Answer)) :
    K.account s (xs ++ ys) = K.account (K.account s xs) ys := List.foldl_append

theorem honours_append {s : σ} {xs ys : List (Sigma Answer)} :
    K.Honours s (xs ++ ys) ↔ K.Honours s xs ∧ K.Honours (K.account s xs) ys := by
  induction xs generalizing s with
  | nil => exact ⟨fun h => ⟨trivial, h⟩, fun h => h.2⟩
  | cons entry rest ih =>
      show _ ∧ K.Honours _ (rest ++ ys) ↔ (_ ∧ _) ∧ _
      rw [ih, and_assoc]
      exact Iff.rfl

theorem obeys_append {s : σ} {xs ys : List (Sigma Answer)} :
    K.Obeys s (xs ++ ys) ↔ K.Obeys s xs ∧ K.Obeys (K.account s xs) ys := by
  induction xs generalizing s with
  | nil => exact ⟨fun h => ⟨trivial, h⟩, fun h => h.2⟩
  | cons entry rest ih =>
      show _ ∧ K.Obeys _ (rest ++ ys) ↔ (_ ∧ _) ∧ _
      rw [ih, and_assoc]
      exact Iff.rfl

end Contract

namespace Dialogue

/-! ### Ways through a program -/

/-- **A way through the program**: a transcript and the result that it leads to. -/
def Path : Dialogue Call Answer α → List (Sigma Answer) → α → Prop
  | ret a, entries, result => entries = [] ∧ a = result
  | call c next, entries, result =>
      ∃ answer rest, entries = ⟨c, answer⟩ :: rest ∧ (next answer).Path rest result

/-- What an environment gets is a way through the program. -/
theorem path_record (env : Environment Call Answer ω) (w : ω) (p : Dialogue Call Answer α) :
    p.Path (p.record env w).1 (p.record env w).2.1 := by
  induction p generalizing w with
  | ret a => exact ⟨rfl, rfl⟩
  | call c next ih => exact ⟨_, _, rfl, ih (env c w).1 (env c w).2⟩

/-! ### Keeping a contract -/

variable {K : Contract Call Answer σ}

/-- From an account on, the program **keeps the contract**, and its results satisfy `Q`. -/
def Keeps (K : Contract Call Answer σ) (Q : σ → α → Prop) : σ → Dialogue Call Answer α → Prop
  | s, ret a => Q s a
  | s, call c next =>
      K.asks s c ∧ ∀ answer, K.promises s c answer → Keeps K Q (K.after s c answer) (next answer)

theorem Keeps.mono {Q R : σ → α → Prop} {s : σ} {p : Dialogue Call Answer α} (h : Keeps K Q s p)
    (hQ : ∀ s a, Q s a → R s a) : Keeps K R s p := by
  induction p generalizing s with
  | ret a => exact hQ s a h
  | call c next ih => exact ⟨h.1, fun answer hanswer => ih answer (h.2 answer hanswer)⟩

theorem keeps_bind {Q : σ → β → Prop} {s : σ} {p : Dialogue Call Answer α}
    {f : α → Dialogue Call Answer β} :
    Keeps K Q s (p >>= f) ↔ Keeps K (fun s a => Keeps K Q s (f a)) s p := by
  induction p generalizing s with
  | ret a => exact Iff.rfl
  | call c next ih =>
      exact and_congr_right fun _ => forall_congr' fun answer => imp_congr_right fun _ => ih answer

/-- **A program that keeps the contract obeys it on every way** on which the environment has
kept its promises. -/
theorem Keeps.obeys {Q : σ → α → Prop} {s : σ} {p : Dialogue Call Answer α} (h : Keeps K Q s p)
    {entries : List (Sigma Answer)} {a : α} (hpath : p.Path entries a)
    (hhonours : K.Honours s entries) : K.Obeys s entries ∧ Q (K.account s entries) a := by
  induction p generalizing s entries with
  | ret result =>
      obtain ⟨rfl, rfl⟩ := hpath
      exact ⟨trivial, h⟩
  | call c next ih =>
      obtain ⟨answer, rest, rfl, hrest⟩ := hpath
      obtain ⟨hobeys, hQ⟩ := ih answer (h.2 answer hhonours.1) hrest hhonours.2
      exact ⟨⟨h.1, hobeys⟩, hQ⟩

end Dialogue

end Mindone.Lib
