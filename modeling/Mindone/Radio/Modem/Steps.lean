import Mindone.Radio.Modem.Service

/-!
# Mindone.Radio.Modem.Steps

What the modem service tells of the modem's state: what the lines say that it was answered with, and
the radio's state behind a power command (`onEvent_updates`).
-/

set_option linter.dupNamespace false

namespace Mindone.Radio.Modem

open At (Channels)
open State (Source Update)

/-- The response to a serial. -/
def reply (result : Except RadioError Value) (serial : Int) : Response :=
  match result with
  | .ok value => ⟨serial, .none, some value⟩
  | .error error => ⟨serial, error, none⟩

@[simp] theorem reply_serial (result : Except RadioError Value) (serial : Int) :
    (reply result serial).serial = serial := by
  cases result <;> rfl

namespace Modem

variable (m : Modem)

theorem respond_eq (serial : Int) (result : Except RadioError Value) :
    m.respond serial result = { m with responses := m.responses ++ [reply result serial] } := rfl

/-- Only the responses change. -/
theorem respondAll_eq (serials : List Int) (result : Except RadioError Value) :
    m.respondAll serials result =
      { m with responses := m.responses ++ serials.map (reply result) } := by
  unfold respondAll
  induction serials generalizing m with
  | nil => simp
  | cons serial rest ih =>
      rw [List.foldl_cons, ih, respond_eq]
      simp

/-! ### Updates -/

theorem start_updates (request : Request) (operation : Operation) (serials : List Int)
    (deadline attempts : Nat) (c : Channels) :
    (m.start request operation serials deadline attempts c).1.updates = m.updates := by
  unfold start
  dsimp only
  split
  · rfl
  · rw [respondAll_eq]

theorem answer_updates (request : Request) : (m.answer request).2.updates = m.updates := by
  unfold answer
  split <;> first | rfl | (split <;> rfl)

theorem submit_updates (serial : Int) (request : Request) (deadline : Nat) (c : Channels)
    (model : State.Model) : (m.submit serial request deadline c model).1.updates = m.updates := by
  unfold submit
  split
  · rfl
  dsimp only
  split
  · rfl
  split
  · split
    · rfl
    · exact start_updates ..
  · exact answer_updates { m with serials := m.serials ++ [serial] } request

theorem conclude_updates (pending : Pending) (result : Except RadioError Value) (c : Channels) :
    (m.conclude pending result c).1.updates = m.updates := by
  unfold conclude
  split
  · split
    · exact start_updates ..
    · rw [respondAll_eq]
  · rw [respondAll_eq]

/-- Where an update comes from. -/
def Told (update : Source × Update) : Prop :=
  (∃ line, State.observeLine line = some update.2) ∨ ∃ radio, update.2 = .radio radio

theorem observed_told (lines : List Text) (error : RadioError) (final : Text) :
    ∀ update ∈ observed lines error final, Told update := by
  intro update hupdate
  obtain ⟨update, hmem, rfl⟩ := List.mem_map.mp hupdate
  left
  rcases List.mem_append.mp hmem with hline | hfinal
  · split at hline
    · obtain ⟨line, -, hline⟩ := List.mem_filterMap.mp hline
      exact ⟨line, hline⟩
    · cases hline
  · exact ⟨final, Option.mem_toList.mp hfinal⟩

/-- What an operation tells the model. -/
theorem completeOperation_updates (pending : Pending) (response : At.Response) (c : Channels) :
    ∀ update ∈ (m.completeOperation pending response c).1.updates,
      update ∈ m.updates ∨ Told update := by
  have hobserved : ∀ update, update ∈ m.updates ++ observed (answerLines pending response)
      (responseError response) (finalLine response) → update ∈ m.updates ∨ Told update :=
    fun update hupdate => (List.mem_append.mp hupdate).imp_right (observed_told _ _ _ update)
  intro update hupdate
  unfold completeOperation at hupdate
  dsimp only at hupdate
  split at hupdate
  · rw [conclude_updates] at hupdate
    exact hobserved update hupdate
  split at hupdate
  · rw [conclude_updates] at hupdate
    exact hobserved update hupdate
  split at hupdate
  · rw [start_updates] at hupdate
    exact hobserved update hupdate
  · rw [conclude_updates] at hupdate
    rcases List.mem_append.mp hupdate with hold | hpower
    · exact hobserved update hold
    · rw [List.mem_singleton.mp hpower]
      exact .inr (.inr ⟨_, rfl⟩)
  · rw [conclude_updates] at hupdate
    exact hobserved update hupdate

/-- **The service tells what lines say, and whether the radio is on.** -/
theorem onEvent_updates (channel : Nat) (event : At.Event) (heard : At.Heard) (c : Channels) :
    ∀ update ∈ (m.onEvent channel event heard c).1.updates, update ∈ m.updates ∨ Told update := by
  intro update hupdate
  unfold onEvent at hupdate
  split at hupdate
  · split at hupdate
    · exact .inl hupdate
    · exact .inl hupdate
  · split at hupdate
    · exact .inl hupdate
    · rename_i response _ pending _
      exact completeOperation_updates
        { m with pending := m.pending.eraseP fun pending => Pending.isOf pending channel response.id }
        pending response c update hupdate
  · simp [reset, respondAll_eq] at hupdate
  · simp [reset, respondAll_eq] at hupdate
  · exact .inl hupdate

end Modem

end Mindone.Radio.Modem
