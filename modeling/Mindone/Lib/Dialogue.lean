import Mathlib.Logic.Basic

/-!
# Mindone.Lib.Dialogue

Programs that talk to an environment. A `Dialogue` returns, or makes a call and goes on with
whatever the environment answers; nothing is said about the environment. **Two dialogues are
equal exactly when no environment can tell them apart** by the calls they make and the results
they return (`eq_iff_observe`), so an equation between dialogues is a statement about every
behaviour of the environment.
-/

namespace Mindone.Lib

variable {Call : Type} {Answer : Call → Type} {α β ω : Type}

/-- A program that makes calls, over every answer to them. -/
inductive Dialogue (Call : Type) (Answer : Call → Type) (α : Type) where
  | ret (result : α)
  | call (c : Call) (next : Answer c → Dialogue Call Answer α)

namespace Dialogue

/-- The first program, and then the second on its result. -/
def bind : Dialogue Call Answer α → (α → Dialogue Call Answer β) → Dialogue Call Answer β
  | ret a, f => f a
  | call c next, f => call c fun answer => (next answer).bind f

instance : Monad (Dialogue Call Answer) where
  pure := ret
  bind := bind

/-- One call. -/
def perform (c : Call) : Dialogue Call Answer (Answer c) := call c ret

@[simp] theorem pure_eq (a : α) : (pure a : Dialogue Call Answer α) = ret a := rfl

@[simp] theorem ret_bind (a : α) (f : α → Dialogue Call Answer β) : (ret a >>= f) = f a := rfl

@[simp] theorem call_bind (c : Call) (next : Answer c → Dialogue Call Answer α)
    (f : α → Dialogue Call Answer β) :
    (call c next >>= f) = call c fun answer => next answer >>= f := rfl

@[simp] theorem perform_bind (c : Call) (f : Answer c → Dialogue Call Answer β) :
    (perform c >>= f) = call c f := rfl

@[simp] theorem bind_assoc {γ : Type} (p : Dialogue Call Answer α) (f : α → Dialogue Call Answer β)
    (g : β → Dialogue Call Answer γ) : (p >>= f) >>= g = p >>= fun a => f a >>= g := by
  induction p with
  | ret a => rfl
  | call c next ih =>
      simp only [call_bind]
      congr 1
      funext answer
      exact ih answer

theorem bind_ret (p : Dialogue Call Answer α) : (p >>= ret) = p := by
  induction p with
  | ret a => rfl
  | call c next ih =>
      rw [call_bind]
      congr 1
      funext answer
      exact ih answer

instance : LawfulMonad (Dialogue Call Answer) :=
  LawfulMonad.mk' _ (fun p => bind_ret p) (fun _ _ => rfl) (fun p f g => bind_assoc p f g)

/-! ### Runs -/

/-- How an environment with a state answers. -/
abbrev Environment (Call : Type) (Answer : Call → Type) (ω : Type) :=
  (c : Call) → ω → Answer c × ω

/-- The calls that are made, the result, and the environment's state behind them. -/
def observe (env : Environment Call Answer ω) : ω → Dialogue Call Answer α → List Call × α × ω
  | w, ret a => ([], a, w)
  | w, call c next =>
      let (answer, w) := env c w
      let (calls, result) := observe env w (next answer)
      (c :: calls, result)

section Observation

variable [∀ c, Nonempty (Answer c)]

/-- An environment that answers the first call with `a`, whatever it is, and then goes on as
another one. -/
private noncomputable def answerFirst (c : Call) (a : Answer c) (w : ω)
    (env : Environment Call Answer ω) : Environment Call Answer (Option ω) :=
  open Classical in fun d s =>
    match s with
    | none => if h : c = d then (h ▸ a, some w) else (Classical.choice inferInstance, none)
    | some v => ((env d v).1, some (env d v).2)

private theorem observe_some (c : Call) (a : Answer c) (w : ω)
    (env : Environment Call Answer ω) (p : Dialogue Call Answer α) (v : ω) :
    observe (answerFirst c a w env) (some v) p =
      ((observe env v p).1, (observe env v p).2.1, some (observe env v p).2.2) := by
  induction p generalizing v with
  | ret result => rfl
  | call d next ih =>
      simp only [observe, answerFirst]
      rw [ih]

/-- **Equal dialogues are those that no environment can tell apart.** -/
theorem eq_iff_observe {p q : Dialogue Call Answer α} :
    p = q ↔ ∀ (ω : Type) (env : Environment Call Answer ω) (w : ω),
      observe env w p = observe env w q := by
  constructor
  · rintro rfl ω env w
    rfl
  · intro hsame
    have hany := hsame Unit fun _ w => (Classical.choice inferInstance, w)
    induction p generalizing q with
    | ret a =>
        cases q with
        | ret b => exact congrArg ret (congrArg (·.2.1) (hany ()))
        | call d next' => exact absurd (congrArg (·.1) (hany ())) (by simp [observe])
    | call c next ih =>
        cases q with
        | ret b => exact absurd (congrArg (·.1) (hany ())) (by simp [observe])
        | call d next' =>
            have hcall : c = d := (List.cons.inj (congrArg (·.1) (hany ()))).1
            subst hcall
            congr 1
            funext a
            have hnext : ∀ (ω : Type) (env : Environment Call Answer ω) (w : ω),
                observe env w (next a) = observe env w (next' a) := by
              intro ω env w
              have h := hsame (Option ω) (answerFirst c a w env) none
              simp only [observe, answerFirst, dif_pos] at h
              rw [observe_some, observe_some] at h
              simp only [Prod.mk.injEq, List.cons.injEq, true_and, Option.some.injEq] at h
              exact Prod.ext h.1 (Prod.ext h.2.1 h.2.2)
            exact ih a hnext (hnext Unit _)

end Observation

/-! ### Transcripts -/

/-- The calls with their answers, the result, and the environment's state behind them. -/
def record (env : Environment Call Answer ω) (w : ω) :
    Dialogue Call Answer α → List (Sigma Answer) × α × ω
  | ret a => ([], a, w)
  | call c next =>
      let (answer, w) := env c w
      let (entries, result) := record env w (next answer)
      (⟨c, answer⟩ :: entries, result)

/-- An answer in the record is one that the environment gives. -/
theorem mem_record (env : Environment Call Answer ω) (w : ω) (p : Dialogue Call Answer α)
    {entry : Sigma Answer} (h : entry ∈ (record env w p).1) :
    ∃ w', entry.2 = (env entry.1 w').1 := by
  induction p generalizing w with
  | ret a => cases h
  | call c next ih =>
      rcases List.mem_cons.mp h with rfl | h
      · exact ⟨w, rfl⟩
      · exact ih _ _ h

/-- The result of a program with a function behind it. -/
theorem record_map (env : Environment Call Answer ω) (w : ω) (p : Dialogue Call Answer α)
    (f : α → β) : (record env w (p >>= fun a => ret (f a))).2.1 = f (record env w p).2.1 := by
  induction p generalizing w with
  | ret a => rfl
  | call c next ih => exact ih (env c w).1 (env c w).2

/-- **On every way through the program**, from a transcript on, the result and the whole
transcript satisfy `Q`. -/
def Leads (Q : List (Sigma Answer) → α → Prop) :
    List (Sigma Answer) → Dialogue Call Answer α → Prop
  | past, ret a => Q past a
  | past, call c next => ∀ answer, Leads Q (past ++ [⟨c, answer⟩]) (next answer)

/-- What every way leads to is what every environment gets. -/
theorem Leads.record {Q : List (Sigma Answer) → α → Prop} {past : List (Sigma Answer)}
    {p : Dialogue Call Answer α} (h : Leads Q past p) (env : Environment Call Answer ω) (w : ω) :
    Q (past ++ (p.record env w).1) (p.record env w).2.1 := by
  induction p generalizing past w with
  | ret a =>
      show Q (past ++ []) a
      rw [List.append_nil]
      exact h
  | call c next ih =>
      have hnext := ih (env c w).1 (h (env c w).1) (env c w).2
      rw [List.append_assoc] at hnext
      exact hnext

theorem Leads.mono {Q R : List (Sigma Answer) → α → Prop} {past : List (Sigma Answer)}
    {p : Dialogue Call Answer α} (h : Leads Q past p) (hQ : ∀ past a, Q past a → R past a) :
    Leads R past p := by
  induction p generalizing past with
  | ret a => exact hQ past a h
  | call c next ih => exact fun answer => ih answer (h answer)

theorem leads_bind {Q : List (Sigma Answer) → β → Prop} {past : List (Sigma Answer)}
    {p : Dialogue Call Answer α} {f : α → Dialogue Call Answer β} :
    Leads Q past (p >>= f) ↔ Leads (fun past a => Leads Q past (f a)) past p := by
  induction p generalizing past with
  | ret a => exact Iff.rfl
  | call c next ih => exact forall_congr' fun answer => ih answer

end Dialogue

end Mindone.Lib
