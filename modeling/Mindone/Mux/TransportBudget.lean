import Mindone.Mux.Context

/-!
# Mindone.Mux.TransportBudget

**What a call on a device costs.** The transport charges in two ways: a loop over a queue
takes a call and counts the bytes as they move, and `io_turn` reserves every byte that is
left and gives back the ones that did not move. Both come down to `Charged`: one call, a
buffer within the bytes that are left, and at least the bytes that moved.
-/

namespace Mindone.Mux.Transport

open Mindone.Lib

/-- The bytes that a call moved, given the size of the buffer: a count above it moves
nothing. -/
def moved (offered : Nat) : IoResult → Nat
  | .transferred bytes => if bytes ≤ offered then bytes else 0
  | .fault _ => 0

/-- **The price of one call** with a buffer of `offered` bytes. -/
structure Charged (before : TurnBudget) (offered : Nat) (result : IoResult)
    (after : TurnBudget) : Prop where
  callLimit : after.callLimit = before.callLimit
  byteLimit : after.byteLimit = before.byteLimit
  calls : after.calls = before.calls + 1
  within : offered ≤ before.availableBytes
  bytes : before.bytes + moved offered result ≤ after.bytes

namespace TurnBudget

theorem takeCall_spec {budget budget' : TurnBudget} (h : budget.takeCall = some budget') :
    budget'.callLimit = budget.callLimit ∧ budget'.byteLimit = budget.byteLimit ∧
      budget'.calls = budget.calls + 1 ∧ budget'.bytes = budget.bytes ∧
      1 ≤ budget'.availableBytes := by
  unfold takeCall at h
  split at h
  · cases h
  · rename_i hroom
    cases h
    have hle := budget.bytes_le
    refine ⟨rfl, rfl, rfl, rfl, ?_⟩
    simp only [availableBytes]
    omega

theorem takeCall_availableBytes {budget budget' : TurnBudget}
    (h : budget.takeCall = some budget') : budget'.availableBytes = budget.availableBytes := by
  obtain ⟨-, hlimit, -, hbytes, -⟩ := takeCall_spec h
  rw [availableBytes, hlimit, hbytes, availableBytes]

/-- A permit reserves every byte that is left. -/
theorem permit_spec {budget budget' : TurnBudget} {maxBytes : Nat}
    (h : budget.permit = some (maxBytes, budget')) :
    budget'.callLimit = budget.callLimit ∧ budget'.byteLimit = budget.byteLimit ∧
      budget'.calls = budget.calls + 1 ∧ maxBytes = budget.availableBytes ∧
      budget'.bytes = budget.bytes + maxBytes := by
  obtain ⟨called, hcall, hreserved⟩ := Option.map_eq_some_iff.mp h
  cases hreserved
  obtain ⟨hcalls, hlimit, htaken, hbytes, -⟩ := takeCall_spec hcall
  have hle := called.bytes_le
  refine ⟨hcalls, hlimit, htaken, takeCall_availableBytes hcall, ?_⟩
  show called.byteLimit = budget.bytes + (called.byteLimit - called.bytes)
  omega

/-- **Giving back never takes more than was reserved.** -/
theorem complete_spec {budget budget' : TurnBudget} {maxBytes accepted : Nat}
    (h : budget.permit = some (maxBytes, budget')) (haccepted : accepted ≤ maxBytes) :
    maxBytes - accepted ≤ budget'.bytes ∧
      ∃ after, budget'.complete maxBytes accepted = .ok after ∧
        after.callLimit = budget.callLimit ∧ after.byteLimit = budget.byteLimit ∧
        after.calls = budget.calls + 1 ∧ after.bytes = budget.bytes + accepted := by
  obtain ⟨hcalls, hlimit, htaken, -, hbytes⟩ := permit_spec h
  refine ⟨by omega, ?_⟩
  unfold complete
  rw [if_neg (Nat.not_lt.mpr haccepted)]
  refine ⟨_, rfl, hcalls, hlimit, htaken, ?_⟩
  show budget'.bytes - (maxBytes - accepted) = budget.bytes + accepted
  omega

/-- A call that is counted first and pays for the bytes behind it. -/
theorem takeCall_charged {budget budget' : TurnBudget} (h : budget.takeCall = some budget')
    {offered n : Nat} {result : IoResult} (hwithin : offered ≤ budget'.availableBytes)
    (hn : n ≤ budget'.availableBytes) (hmoved : moved offered result = n) :
    Charged budget offered result (budget'.spend n hn) := by
  obtain ⟨hcalls, hlimit, htaken, hbytes, -⟩ := takeCall_spec h
  refine ⟨hcalls, hlimit, htaken, ?_, ?_⟩
  · rw [← takeCall_availableBytes h]
    exact hwithin
  · show budget.bytes + moved offered result ≤ budget'.bytes + n
    omega

end TurnBudget

/-! ### Draining a queue -/

section Drain

variable {capacity : Nat} {ω : Type} {I : ω → TurnBudget → Prop}

/-- **What every charged call keeps, draining keeps.** -/
theorem drainLoop_keeps {writer : ByteWriter ω}
    (hcall : ∀ {input w budget budget'}, I w budget →
      Charged budget input.length (writer input w).1 budget' → I (writer input w).2 budget')
    (queue : ByteQueue capacity) (w : ω) (budget : TurnBudget) (h : I w budget) :
    I (drainLoop writer queue w budget).world (drainLoop writer queue w budget).budget := by
  -- one call of the loop, with the bytes it moved
  have hone : ∀ {queue : ByteQueue capacity} {w w' : ω} {budget budget' : TurnBudget}
      {offered n : Nat} {result : IoResult}, budget.takeCall = some budget' →
      offered = min queue.pending.length budget'.availableBytes →
      writer (queue.pending.take offered) w = (result, w') →
      ∀ hn : n ≤ budget'.availableBytes, moved offered result = n →
      I w budget → I w' (budget'.spend n hn) := by
    intro queue w w' budget budget' offered n result htake hoffered hwrite hn hmoved hI
    have hlength : (queue.pending.take offered).length = offered := by
      rw [List.length_take]
      omega
    have hcharged := TurnBudget.takeCall_charged htake (by omega) hn hmoved
    rw [← hlength] at hcharged
    have hkept : I (writer (queue.pending.take offered) w).2 (budget'.spend n hn) :=
      hcall hI (by rw [hwrite]; exact hcharged)
    rw [hwrite] at hkept
    exact hkept
  fun_induction drainLoop writer queue w budget with
  | case1 queue w budget hempty => exact h
  | case2 queue w budget hsome hyield => exact h
  | case3 queue w budget hsome budget' htake offered w' hwrite =>
      exact hone htake rfl hwrite (Nat.zero_le _) rfl h
  | case4 queue w budget hsome budget' htake offered bytes w' hwrite hzero hexcess =>
      exact hone htake rfl hwrite (Nat.zero_le _) (if_neg (Nat.not_le.mpr hexcess)) h
  | case5 queue w budget hsome budget' htake offered bytes w' hwrite hzero hle e herror =>
      have hfits : bytes ≤ queue.pending.length := by omega
      obtain ⟨queue', hok⟩ := ByteQueue.acceptWritten_isOk hfits
      rw [hok] at herror
      cases herror
  | case6 queue w budget hsome budget' htake offered bytes w' hwrite hzero hle queue' hok ih =>
      exact ih (hone htake rfl hwrite _ (if_pos (Nat.le_of_not_lt hle)) h)
  | case7 queue w budget hsome budget' htake offered w' hwrite ih =>
      exact ih (hone htake rfl hwrite (Nat.zero_le _) rfl h)
  | case8 queue w budget hsome budget' htake offered w' hwrite
  | case9 queue w budget hsome budget' htake offered w' hwrite
  | case10 queue w budget hsome budget' htake offered w' hwrite
  | case11 queue w budget hsome budget' htake offered w' hwrite
  | case12 queue w budget hsome budget' htake offered w' hwrite =>
      exact hone htake rfl hwrite (Nat.zero_le _) rfl h

/-- A drained queue has only been charged for. -/
theorem drainLoop_budget (writer : ByteWriter ω) (queue : ByteQueue capacity) (w : ω)
    (budget : TurnBudget) :
    budget.calls ≤ (drainLoop writer queue w budget).budget.calls ∧
      budget.bytes ≤ (drainLoop writer queue w budget).budget.bytes := by
  refine drainLoop_keeps (I := fun (_ : ω) after =>
    budget.calls ≤ after.calls ∧ budget.bytes ≤ after.bytes) ?_ queue w budget
    ⟨Nat.le_refl _, Nat.le_refl _⟩
  rintro input w before after ⟨hcalls, hbytes⟩ hcharged
  have htaken := hcharged.calls
  have hspent := hcharged.bytes
  exact ⟨by omega, by omega⟩

end Drain

end Mindone.Mux.Transport

namespace Mindone.Mux.Runtime

open Mindone.Lib Transport

variable {ω : Type}

/-! ### `io_turn` -/

/-- **`io_turn` makes no call, or one that it pays for.** Only a count above the offer is
an error. -/
theorem ioTurn_spec (requested : Nat) (operation : Nat → ω → IoResult × ω) (w : ω)
    (budget : TurnBudget) :
    Ends (ioTurn requested operation) (w, budget)
      (fun result s => (result = none ∧ s = (w, budget)) ∨
        ∃ offered answer, offered ≤ requested ∧ result = some answer ∧
          operation offered w = (answer, s.1) ∧ Charged budget offered answer s.2 ∧
          ∀ n, answer = .transferred n → n ≤ offered)
      fun e s => e = .invalidProgress ∧ ∃ offered n, offered ≤ requested ∧ offered < n ∧
        operation offered w = (.transferred n, s.1) ∧
        Charged budget offered (.transferred n) s.2 := by
  by_cases hnone : requested = 0
  · have hresult : ioTurn requested operation (w, budget) = .ok none (w, budget) := if_pos hnone
    exact (ends_of_ok hresult).mpr (Or.inl ⟨rfl, rfl⟩)
  · cases hpermit : budget.permit with
    | none =>
        have hresult : ioTurn requested operation (w, budget) = .ok none (w, budget) := by
          simp only [ioTurn, if_neg hnone, hpermit]
        exact (ends_of_ok hresult).mpr (Or.inl ⟨rfl, rfl⟩)
    | some permit =>
        obtain ⟨maxBytes, reserved⟩ := permit
        obtain ⟨hcalls, hlimit, htaken, hmax, hbytes⟩ := TurnBudget.permit_spec hpermit
        have hwithin : min requested maxBytes ≤ budget.availableBytes :=
          hmax ▸ Nat.min_le_right _ _
        cases hcall : operation (min requested maxBytes) w with
        | mk result w' =>
            cases result with
            | fault fault =>
                obtain ⟨-, after, hafter, hcalls', hlimit', htaken', hbytes'⟩ :=
                  TurnBudget.complete_spec hpermit (Nat.zero_le maxBytes)
                have hresult : ioTurn requested operation (w, budget) =
                    .ok (some (.fault fault)) (w', after) := by
                  simp only [ioTurn, if_neg hnone, hpermit, hcall, hafter]
                refine (ends_of_ok hresult).mpr (Or.inr ⟨min requested maxBytes, .fault fault,
                  Nat.min_le_left _ _, rfl, hcall, ?_, fun _ h => by cases h⟩)
                exact ⟨hcalls', hlimit', htaken', hwithin, Nat.le_of_eq hbytes'.symm⟩
            | transferred bytes =>
                by_cases hexcess : bytes > min requested maxBytes
                · -- the reserved bytes are not given back
                  have hresult : ioTurn requested operation (w, budget) =
                      .error .invalidProgress (w', reserved) := by
                    simp only [ioTurn, if_neg hnone, hpermit, hcall, if_pos hexcess]
                  refine (ends_of_error hresult).mpr ⟨rfl, min requested maxBytes, bytes,
                    Nat.min_le_left _ _, hexcess, hcall, hcalls, hlimit, htaken, hwithin, ?_⟩
                  rw [moved, if_neg (Nat.not_le.mpr hexcess)]
                  show budget.bytes + 0 ≤ reserved.bytes
                  omega
                · have hbound : bytes ≤ min requested maxBytes := Nat.le_of_not_lt hexcess
                  obtain ⟨-, after, hafter, hcalls', hlimit', htaken', hbytes'⟩ :=
                    TurnBudget.complete_spec hpermit
                      (Nat.le_trans hbound (Nat.min_le_right requested maxBytes))
                  have hresult : ioTurn requested operation (w, budget) =
                      .ok (some (.transferred bytes)) (w', after) := by
                    simp only [ioTurn, if_neg hnone, hpermit, hcall, if_neg hexcess, hafter]
                  refine (ends_of_ok hresult).mpr (Or.inr ⟨min requested maxBytes,
                    .transferred bytes, Nat.min_le_left _ _, rfl, hcall,
                    ⟨hcalls', hlimit', htaken', hwithin, ?_⟩, ?_⟩)
                  · rw [moved, if_pos hbound]
                    exact Nat.le_of_eq hbytes'.symm
                  · intro n hn
                    cases hn
                    exact hbound

/-- **What every charged call keeps, `io_turn` keeps.** -/
theorem ioTurn_keeps {I : ω → TurnBudget → Prop} {requested : Nat}
    {operation : Nat → ω → IoResult × ω} {w : ω} {budget : TurnBudget}
    (hcall : ∀ {offered budget'}, offered ≤ requested →
      Charged budget offered (operation offered w).1 budget' → I (operation offered w).2 budget')
    (h : I w budget) :
    Ends (ioTurn requested operation) (w, budget) (fun _ s => I s.1 s.2) fun _ s => I s.1 s.2 := by
  refine (ioTurn_spec requested operation w budget).mono ?_ ?_
  · rintro result ⟨w', budget'⟩ (⟨-, hsame⟩ | ⟨offered, answer, hle, -, hanswer, hcharged, -⟩)
    · cases hsame
      exact h
    · have hkept := hcall hle (by rw [hanswer]; exact hcharged)
      rw [hanswer] at hkept
      exact hkept
  · rintro e ⟨w', budget'⟩ ⟨-, offered, n, hle, -, hanswer, hcharged⟩
    have hkept := hcall hle (by rw [hanswer]; exact hcharged)
    rw [hanswer] at hkept
    exact hkept

/-- The loop of `deliver` keeps what its calls keep. -/
theorem writeLoop_keeps {I : ω → TurnBudget → Prop} {writer : ByteWriter ω}
    (hcall : ∀ {input w budget budget'}, I w budget →
      Charged budget input.length (writer input w).1 budget' → I (writer input w).2 budget')
    (rest : List UInt8) (w : ω) (budget : TurnBudget) (h : I w budget) :
    I (writeLoop writer rest w budget).world (writeLoop writer rest w budget).budget := by
  have hturn : ∀ (rest : List UInt8) (w : ω) (budget : TurnBudget), I w budget →
      Ends (ioTurn rest.length fun offered => writer (rest.take offered)) (w, budget)
        (fun _ s => I s.1 s.2) fun _ s => I s.1 s.2 := by
    intro rest w budget hI
    refine ioTurn_keeps ?_ hI
    intro offered budget' hle hcharged
    have hlength : (rest.take offered).length = offered := by
      rw [List.length_take]
      exact Nat.min_eq_left hle
    exact hcall hI (by rw [hlength]; exact hcharged)
  fun_induction writeLoop writer rest w budget with
  | case1 w budget => exact h
  | case2 rest w budget hsome e w' budget' hio =>
      exact (ends_of_error hio).mp (hturn rest w budget h)
  | case3 rest w budget hsome w' budget' hio =>
      exact (ends_of_ok hio).mp (hturn rest w budget h)
  | case4 rest w budget hsome w' budget' hio =>
      exact (ends_of_ok hio).mp (hturn rest w budget h)
  | case5 rest w budget hsome bytes w' budget' hio hzero ih =>
      exact ih ((ends_of_ok hio).mp (hturn rest w budget h))
  | case6 rest w budget hsome w' budget' hio =>
      exact (ends_of_ok hio).mp (hturn rest w budget h)
  | case7 rest w budget hsome w' budget' hio ih =>
      exact ih ((ends_of_ok hio).mp (hturn rest w budget h))
  | case8 rest w budget hsome fault w' budget' hblock hinterrupt hio =>
      exact (ends_of_ok hio).mp (hturn rest w budget h)

/-- The loop of `deliver` stops for a count above the offer only. -/
theorem writeLoop_error {writer : ByteWriter ω} {rest : List UInt8} {w : ω} {budget : TurnBudget}
    {e : Error} (h : (writeLoop writer rest w budget).outcome = .error e) :
    e = .invalidProgress := by
  fun_induction writeLoop writer rest w budget with
  | case2 rest w budget hsome e' w' budget' hio =>
      cases h
      exact ((ends_of_error hio).mp (ioTurn_spec _ _ _ _)).1
  | case5 rest w budget hsome bytes w' budget' hio hzero ih => exact ih h
  | case7 rest w budget hsome w' budget' hio ih => exact ih h
  | _ => cases h

/-! ### Devices -/

section Devices

variable {E : Type} {env : Env E ω} {I : ω → TurnBudget → Prop}

/-- What the world and the budget keep: every call on a device is charged, and the rest
of the world outside costs nothing. -/
structure Metered (env : Env E ω) (I : ω → TurnBudget → Prop) : Prop where
  prepare : ∀ {endpoint w budget}, I w budget → I (env.prepare endpoint w).2 budget
  openEndpoint : ∀ {c w budget}, I w budget → I (env.openEndpoint c w).2 budget
  apply : ∀ {event w budget}, I w budget → I (env.apply event w).2 budget
  epochsTaken : ∀ {w budget}, I w budget → I (env.epochsTaken w).2 budget
  read : ∀ {endpoint offered w budget budget'}, I w budget →
    Charged budget offered (env.read endpoint offered w).1.1 budget' →
    I (env.read endpoint offered w).2 budget'
  write : ∀ {endpoint input w budget budget'}, I w budget →
    Charged budget input.length (env.write endpoint input w).1 budget' →
    I (env.write endpoint input w).2 budget'

theorem metered_true (env : Env E ω) : Metered env fun _ _ => True :=
  ⟨fun _ => trivial, fun _ => trivial, fun _ => trivial, fun _ => trivial, fun _ _ => trivial,
    fun _ _ => trivial⟩

variable (h : Metered env I)
include h

/-- The writer of an endpoint changes the kind of a fault only. -/
theorem Metered.endpointWriter {endpoint : E} {pty : Bool} {input : List UInt8} {w : ω}
    {budget budget' : TurnBudget} (hI : I w budget)
    (hcharged : Charged budget input.length
      (Runtime.endpointWriter env endpoint pty input w).1 budget') :
    I (Runtime.endpointWriter env endpoint pty input w).2 budget' := by
  have hsame : moved input.length (Runtime.endpointWriter env endpoint pty input w).1 =
      moved input.length (env.write endpoint input w).1 ∧
      (Runtime.endpointWriter env endpoint pty input w).2 = (env.write endpoint input w).2 := by
    unfold Runtime.endpointWriter
    split
    · rename_i hwrite
      rw [hwrite]
      exact ⟨rfl, rfl⟩
    · rename_i hwrite
      rw [hwrite]
      exact ⟨rfl, rfl⟩
    · rename_i hwrite
      rw [hwrite]
      exact ⟨rfl, rfl⟩
    · exact ⟨rfl, rfl⟩
  rw [hsame.2]
  refine h.write hI { hcharged with bytes := ?_ }
  rw [← hsame.1]
  exact hcharged.bytes

end Devices

end Mindone.Mux.Runtime
