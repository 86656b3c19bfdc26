import Mathlib.Tactic.Linarith
import Mathlib.Tactic.Ring
import Mindone.Lib.EaField
import Mindone.Lib.Program
import Mindone.Mux.Mcc
import Mindone.Mux.SessionMoves

/-!
# Mindone.Mux.MccMessages

Which control messages `prepare` accepts, with the output buffer as a state (`prepareInto`), so that
what an error leaves in it can be seen. **A message is accepted when it is one message and, if it is
a command, its body is legal and its reply fits** (`accepts_iff`).
-/

namespace Mindone.Mux.Mcc

open Mindone.Lib

/-- The reply, with each write to the output buffer. -/
def prepareReplyInto (input : List UInt8) (kind : UInt8) (typeBytes frameLimit : Nat) :
    EStateM Error (List UInt8) Reply := do
  let responseTypeBytes := min typeBytes maxNscTypeBytes
  let length := if echoes kind then input.length else 2 + responseTypeBytes
  if length > frameLimit ∨ length > maxPayload then throw .oversizedReply
  else if shorterThan (← get) length then throw .insufficientCapacity
  else
    if echoes kind then
      modify fun output => blit output 0 input
      modify fun output => output.set 0 (output.getD 0 0 &&& ~~~command)
    else
      modify fun output => output.set 0 nsc
      modify fun output => output.set 1 (UInt8.ofNat responseTypeBytes <<< 1 ||| 1)
      modify fun output => blit output 2 (input.take responseTypeBytes)
    return { control := uih, payload := (← get).take length }

/-- `prepare`, with each write to the output buffer. -/
def prepareInto (input : List UInt8) (frameLimit : Nat) :
    EStateM Error (List UInt8) Outcome := do
  if ¬ ValidLimit frameLimit then throw .configuration
  if input.length > frameLimit then throw .oversizedInput
  let typeBytes ←
    match input.findIdx? fun byte => byte &&& 1 != 0 with
    | none => throw .missingTypeTerminator
    | some position => pure (position + 1)
  let (declared, valueStart) ← ofExcept (declaredLength input typeBytes)
  let actual := input.length - valueStart
  if declared > actual then throw .lengthMismatch
  if declared < actual then throw .trailingBytes
  let first := input.getD 0 0
  if first &&& command = 0 then
    return { effect := .none, reply := none }
  let kind := first &&& ~~~command
  let effect ← ofExcept (effectOf kind (input.drop valueStart))
  let reply ← prepareReplyInto input kind typeBytes frameLimit
  return { effect, reply := some reply }

/-- The result of a run, with the buffer as it was when the run stopped with an error. -/
def Matches {α : Type} (result : Except Error α) (output : List UInt8) :
    EStateM.Result Error (List UInt8) α → Prop
  | .ok a _ => result = .ok a
  | .error e output' => result = .error e ∧ output' = output

section Matches

variable {α β : Type} {result : Except Error α} {output : List UInt8}

/-- A part that does not look at the buffer. -/
theorem matches_ofExcept_bind {g : α → Except Error β} {f : α → EStateM Error (List UInt8) β}
    (h : ∀ a, Matches (g a) output (f a output)) :
    Matches (result >>= g) output ((ofExcept result >>= f) output) := by
  cases result with
  | error e => exact ⟨rfl, rfl⟩
  | ok a => exact h a

theorem Matches.bind_pure {p : EStateM Error (List UInt8) α} (h : Matches result output (p output))
    (f : α → β) :
    Matches (result >>= fun a => pure (f a)) output ((p >>= fun a => pure (f a)) output) := by
  cases hrun : p output with
  | ok a output' =>
      rw [hrun] at h
      obtain rfl : result = .ok a := h
      rw [run_bind_ok hrun]
      rfl
  | error e output' =>
      rw [hrun] at h
      obtain ⟨rfl, rfl⟩ : result = .error e ∧ output' = output := h
      rw [run_bind_error hrun]
      exact ⟨rfl, rfl⟩

end Matches

theorem prepareReplyInto_matches (input output : List UInt8) (kind : UInt8)
    (typeBytes frameLimit : Nat) :
    Matches (prepareReply input kind typeBytes frameLimit output) output
      (prepareReplyInto input kind typeBytes frameLimit output) := by
  unfold prepareReply prepareReplyInto
  dsimp only
  generalize (if echoes kind = true then input.length else 2 + min typeBytes maxNscTypeBytes) =
    length
  by_cases hlimit : length > frameLimit ∨ length > maxPayload
  · rw [if_pos hlimit, if_pos hlimit]
    exact ⟨rfl, rfl⟩
  rw [if_neg hlimit, if_neg hlimit, run_get_bind]
  by_cases hshort : shorterThan output length = true
  · rw [if_pos hshort, if_pos hshort]
    exact ⟨rfl, rfl⟩
  rw [if_neg hshort, if_neg hshort]
  cases echoes kind with
  | true => rfl
  | false => rfl

/-- **`prepare` with its buffer** returns what `prepare` returns, and an error leaves the buffer. -/
theorem prepareInto_matches (input output : List UInt8) (frameLimit : Nat) :
    Matches (prepare input frameLimit output) output (prepareInto input frameLimit output) := by
  unfold prepare prepareInto
  by_cases hlimit : ¬ ValidLimit frameLimit
  · rw [if_pos hlimit, if_pos hlimit]
    exact ⟨rfl, rfl⟩
  rw [if_neg hlimit, if_neg hlimit]
  by_cases hfit : input.length > frameLimit
  · rw [if_pos hfit, if_pos hfit]
    exact ⟨rfl, rfl⟩
  rw [if_neg hfit, if_neg hfit]
  cases input.findIdx? fun byte => byte &&& 1 != 0 with
  | none => exact ⟨rfl, rfl⟩
  | some position =>
      simp only [pure_bind]
      refine matches_ofExcept_bind fun ⟨declared, valueStart⟩ => ?_
      dsimp only
      by_cases hmore : declared > input.length - valueStart
      · rw [if_pos hmore, if_pos hmore]
        exact ⟨rfl, rfl⟩
      rw [if_neg hmore, if_neg hmore]
      by_cases hless : declared < input.length - valueStart
      · rw [if_pos hless, if_pos hless]
        exact ⟨rfl, rfl⟩
      rw [if_neg hless, if_neg hless]
      by_cases hanswer : input.getD 0 0 &&& command = 0
      · rw [if_pos hanswer, if_pos hanswer]
        rfl
      rw [if_neg hanswer, if_neg hanswer]
      refine matches_ofExcept_bind fun effect => ?_
      exact (prepareReplyInto_matches _ _ _ _ _).bind_pure _

theorem prepareInto_ok_iff {input output : List UInt8} {frameLimit : Nat} {outcome : Outcome} :
    (∃ output', prepareInto input frameLimit output = .ok outcome output') ↔
      prepare input frameLimit output = .ok outcome := by
  have hmatches := prepareInto_matches input output frameLimit
  cases hrun : prepareInto input frameLimit output with
  | ok outcome' output' =>
      rw [hrun] at hmatches
      have hprepare : prepare input frameLimit output = .ok outcome' := hmatches
      simp [hprepare]
  | error e output' =>
      rw [hrun] at hmatches
      obtain ⟨hprepare, -⟩ : prepare input frameLimit output = .error e ∧ _ := hmatches
      simp [hprepare]

/-- An error leaves the buffer. -/
theorem error_of_prepareInto {input output output' : List UInt8} {frameLimit : Nat} {e : Error}
    (h : prepareInto input frameLimit output = .error e output') : output' = output := by
  have hmatches := prepareInto_matches input output frameLimit
  rw [h] at hmatches
  exact hmatches.2

/-! ### Messages -/

/-- One message: a type, the length of the value, and the value. -/
def Message (input type value : List UInt8) : Prop :=
  ∃ kind length, input = type ++ (length ++ value) ∧ EaField type kind ∧
    EaField length value.length ∧ length.length ≤ maxLengthBytes

theorem Message.unique {input type value type' value' : List UInt8} (h : Message input type value)
    (h' : Message input type' value') : type = type' ∧ value = value' := by
  obtain ⟨kind, length, hinput, htype, hlength, -⟩ := h
  obtain ⟨kind', length', hinput', htype', hlength', -⟩ := h'
  obtain ⟨rfl, -, hrest⟩ := htype.unique htype' (hinput.symm.trans hinput')
  exact ⟨rfl, (hlength.unique hlength' hrest).2.2⟩

theorem Message.ne_nil {input type value : List UInt8} (h : Message input type value) :
    input ≠ [] := by
  obtain ⟨kind, length, rfl, htype, -⟩ := h
  exact List.append_ne_nil_of_left_ne_nil htype.ne_nil _

theorem Message.type_le {input type value : List UInt8} (h : Message input type value) :
    type.length ≤ input.length := by
  obtain ⟨kind, length, rfl, -⟩ := h
  rw [List.length_append]
  omega

/-- Joining the seven bits of the next byte. -/
theorem or_shiftLeft (value : Nat) (b : UInt8) {i : Nat} (h : value < 2 ^ i) :
    value ||| (b >>> 1).toNat <<< i = value + (b >>> 1).toNat * 2 ^ i := by
  rw [Nat.or_comm, ← Nat.shiftLeft_add_eq_or_of_lt h, Nat.shiftLeft_eq, Nat.add_comm]

/-- The byte at the front of what is left. -/
theorem getElem?_of_drop {input tail : List UInt8} {i : Nat} {b : UInt8}
    (h : input.drop i = b :: tail) : input[i]? = some b := by
  have hfront : (input.drop i)[0]? = input[i + 0]? := List.getElem?_drop
  rw [h, Nat.add_zero] at hfront
  exact hfront.symm

/-- The loop of `declared_length` reads a field of as many bytes as are still allowed. -/
theorem lengthLoop_field {input field rest : List UInt8} {n start : Nat} (h : EaField field n) :
    ∀ (index count value : Nat), input.drop (start + index) = field ++ rest →
      field.length ≤ count → value < 2 ^ (index * 7) →
      lengthLoop input start (List.range' index count) value =
        .ok (value + n * 2 ^ (index * 7), start + index + field.length) := by
  induction h with
  | last b hb =>
      intro index count value hdrop hcount hvalue
      obtain ⟨count, rfl⟩ : ∃ c, count = c + 1 := Nat.exists_eq_add_of_le' hcount
      rw [List.range'_succ, lengthLoop, getElem?_of_drop hdrop]
      dsimp only
      rw [or_shiftLeft value b hvalue, if_pos (by simpa [extensionBit] using hb)]
      rfl
  | more b tail n hb htail ih =>
      intro index count value hdrop hcount hvalue
      obtain ⟨count, rfl⟩ := Nat.exists_eq_add_of_le' (Nat.le_trans (Nat.le_add_left 1 _) hcount)
      have hbits : (b >>> 1).toNat < 128 := by
        have hall : ∀ b : UInt8, (b >>> 1).toNat < 128 := by decide +kernel
        exact hall b
      have hpow : 2 ^ ((index + 1) * 7) = 128 * 2 ^ (index * 7) := by
        rw [Nat.add_mul, Nat.pow_add, Nat.mul_comm]
      have hnext : value + (b >>> 1).toNat * 2 ^ (index * 7) < 2 ^ ((index + 1) * 7) := by
        rw [hpow]
        nlinarith
      rw [List.range'_succ, lengthLoop, getElem?_of_drop hdrop]
      dsimp only
      rw [or_shiftLeft value b hvalue, if_neg (by simpa [extensionBit] using hb),
        ih (index + 1) count _ ?_ (by simpa using hcount) hnext]
      · rw [hpow, List.length_cons]
        congr 2
        · ring
        · omega
      · rw [← Nat.add_assoc, ← List.drop_drop, hdrop]
        rfl

/-- What the loop reads is a field. -/
theorem field_of_lengthLoop {input : List UInt8} {start : Nat} {found : Nat × Nat} :
    ∀ (count index value : Nat),
      lengthLoop input start (List.range' index count) value = .ok found →
      ∃ field rest n, input.drop (start + index) = field ++ rest ∧ EaField field n ∧
        field.length ≤ count := by
  intro count
  induction count with
  | zero => exact fun index value h => absurd h (by simp [lengthLoop])
  | succ count ih =>
      intro index value h
      rw [List.range'_succ, lengthLoop] at h
      cases hbyte : input[start + index]? with
      | none => simp [hbyte] at h
      | some b =>
          have hdrop : input.drop (start + index) = b :: input.drop (start + (index + 1)) := by
            rw [List.drop_eq_getElem?_toList_append, hbyte]
            rfl
          rw [hbyte] at h
          dsimp only at h
          cases hb : extensionBit b with
          | true => exact ⟨[b], _, _, hdrop, .last b hb, Nat.le_add_left 1 count⟩
          | false =>
              rw [if_neg (by simpa [extensionBit] using hb)] at h
              obtain ⟨field, rest, n, htail, hfield, hlength⟩ := ih (index + 1) _ h
              exact ⟨b :: field, rest, _, by rw [hdrop, htail]; rfl, .more b field n hb hfield,
                Nat.succ_le_succ hlength⟩

section Parse

variable {input type value output : List UInt8} {limit : Nat}

/-- **One message is read** to its end, and what is left is about its command. -/
theorem prepare_message (hlimit : ValidLimit limit) (hfit : input.length ≤ limit)
    (h : Message input type value) :
    prepare input limit output =
      if input.getD 0 0 &&& command = 0 then .ok ⟨.none, none⟩
      else effectOf (input.getD 0 0 &&& ~~~command) value >>= fun effect =>
        prepareReply input (input.getD 0 0 &&& ~~~command) type.length limit output >>=
          fun reply => .ok ⟨effect, some reply⟩ := by
  obtain ⟨kind, length, rfl, htype, hlength, hbytes⟩ := h
  have hpos : type.length - 1 + 1 = type.length := by
    have hne : type.length ≠ 0 := by simpa using htype.ne_nil
    omega
  have hdeclared : declaredLength (type ++ (length ++ value)) type.length =
      .ok (value.length, type.length + length.length) := by
    have hdrop : (type ++ (length ++ value)).drop (type.length + 0) = length ++ value := by simp
    have hloop := lengthLoop_field hlength 0 maxLengthBytes 0 hdrop hbytes (by decide)
    simpa [declaredLength, List.range_eq_range'] using hloop
  have hactual : (type ++ (length ++ value)).length - (type.length + length.length) =
      value.length := by
    simp only [List.length_append]
    omega
  have hvalue : (type ++ (length ++ value)).drop (type.length + length.length) = value := by
    simp
  have hfound : (type ++ (length ++ value)).findIdx? (fun byte => byte &&& 1 != 0) =
      some (type.length - 1) := htype.findIdx? _
  unfold prepare
  rw [if_neg (not_not_intro hlimit), if_neg (Nat.not_lt.mpr hfit), hfound]
  simp only [pure_bind, hpos, hdeclared]
  show (if value.length > (type ++ (length ++ value)).length - (type.length + length.length) then _
    else _) = _
  rw [hactual, if_neg (Nat.lt_irrefl _), if_neg (Nat.lt_irrefl _), hvalue]
  rfl

/-- What is accepted is one message within the limit. -/
theorem message_of_prepare {outcome : Outcome} (h : prepare input limit output = .ok outcome) :
    ValidLimit limit ∧ input.length ≤ limit ∧ ∃ type value, Message input type value := by
  unfold prepare at h
  by_cases hlimit : ValidLimit limit
  swap
  · rw [if_pos hlimit] at h
    cases h
  by_cases hfit : input.length > limit
  · rw [if_neg (not_not_intro hlimit), if_pos hfit] at h
    cases h
  rw [if_neg (not_not_intro hlimit), if_neg hfit] at h
  refine ⟨hlimit, Nat.le_of_not_lt hfit, ?_⟩
  cases hfound : input.findIdx? fun byte => byte &&& 1 != 0 with
  | none =>
      rw [hfound] at h
      cases h
  | some position =>
      obtain ⟨type, rest, kind, rfl, htype, hpos⟩ := exists_field hfound
      rw [hfound] at h
      simp only [pure_bind, ← hpos] at h
      cases hdeclared : declaredLength (type ++ rest) type.length with
      | error e =>
          rw [hdeclared] at h
          cases h
      | ok found =>
          obtain ⟨length, value, n, hrest, hlength, hbytes⟩ :=
            field_of_lengthLoop maxLengthBytes 0 0 (by
              simpa [declaredLength, List.range_eq_range'] using hdeclared)
          have hread := lengthLoop_field hlength 0 maxLengthBytes 0 hrest hbytes (by decide)
          rw [Nat.add_zero, List.drop_left] at hrest
          obtain rfl : found = (n, type.length + length.length) := by
            refine Except.ok.inj (hdeclared.symm.trans ?_)
            simpa [declaredLength, List.range_eq_range'] using hread
          have hactual : (type ++ rest).length - (type.length + length.length) = value.length := by
            simp only [hrest, List.length_append]
            omega
          refine ⟨type, value, kind, length, by rw [hrest], htype, ?_, hbytes⟩
          -- neither of the two errors about the length
          rw [hdeclared] at h
          change (if n > (type ++ rest).length - (type.length + length.length) then _ else _) = _ at h
          rw [hactual] at h
          by_cases hmore : n > value.length
          · rw [if_pos hmore] at h
            cases h
          by_cases hless : n < value.length
          · rw [if_neg hmore, if_pos hless] at h
            cases h
          obtain rfl : n = value.length := by omega
          exact hlength

/-! ### Commands -/

/-- What the body of a command may be. -/
def LegalBody (kind : UInt8) (value : List UInt8) : Prop :=
  (kind = psc ∨ kind = cld → value = []) ∧ (kind = pn → value.length = 8) ∧
  (kind = msc →
    (∃ channel signals, value = [channel, signals] ∧ channel &&& 3 = 3 ∧ signals &&& 1 = 1) ∨
    ∃ channel signals breakSignal, value = [channel, signals, breakSignal] ∧
      channel &&& 3 = 3 ∧ signals &&& 1 = 0 ∧ breakSignal &&& 1 = 1)

theorem validMsc_iff :
    validMsc value = true ↔
      (∃ channel signals, value = [channel, signals] ∧ channel &&& 3 = 3 ∧ signals &&& 1 = 1) ∨
      ∃ channel signals breakSignal, value = [channel, signals, breakSignal] ∧
        channel &&& 3 = 3 ∧ signals &&& 1 = 0 ∧ breakSignal &&& 1 = 1 := by
  match value with
  | [] => simp [validMsc]
  | [a] => simp [validMsc]
  | [a, b] => simp [validMsc]
  | [a, b, c] => simp [validMsc, and_assoc]
  | a :: b :: c :: d :: rest => simp [validMsc]

/-- **A body is accepted exactly if it is legal.** -/
theorem effectOf_ok_iff {kind : UInt8} :
    (∃ effect, effectOf kind value = .ok effect) ↔ LegalBody kind value := by
  unfold effectOf LegalBody
  rw [← validMsc_iff]
  by_cases hempty : (kind = psc ∨ kind = cld) ∧ value ≠ []
  · rw [if_pos hempty]
    exact ⟨nofun, fun hlegal => absurd (hlegal.1 hempty.1) hempty.2⟩
  by_cases hpn : kind = pn ∧ value.length ≠ 8
  · rw [if_neg hempty, if_pos hpn]
    exact ⟨nofun, fun hlegal => absurd (hlegal.2.1 hpn.1) hpn.2⟩
  by_cases hmsc : kind = msc ∧ validMsc value = false
  · rw [if_neg hempty, if_neg hpn, if_pos hmsc]
    refine ⟨nofun, fun hlegal => ?_⟩
    exact absurd ((hlegal.2.2 hmsc.1).symm.trans hmsc.2) (by decide)
  rw [if_neg hempty, if_neg hpn, if_neg hmsc]
  have hlegal : (kind = psc ∨ kind = cld → value = []) ∧ (kind = pn → value.length = 8) ∧
      (kind = msc → validMsc value = true) := by
    refine ⟨fun hkind => ?_, fun hkind => ?_, fun hkind => ?_⟩
    · exact Decidable.of_not_not fun hvalue => hempty ⟨hkind, hvalue⟩
    · exact Decidable.of_not_not fun hvalue => hpn ⟨hkind, hvalue⟩
    · exact (Bool.not_eq_false _).mp fun hvalue => hmsc ⟨hkind, hvalue⟩
  refine ⟨fun _ => hlegal, fun _ => ?_⟩
  split
  · exact ⟨_, rfl⟩
  · split
    · exact ⟨_, rfl⟩
    · exact ⟨_, rfl⟩

/-- How long the reply to a command is. -/
def replyLength (input type : List UInt8) (kind : UInt8) : Nat :=
  if echoes kind then input.length else 2 + min type.length maxNscTypeBytes

theorem prepareReply_ok_iff {kind : UInt8} (hlimit : ValidLimit limit) :
    (∃ reply, prepareReply input kind type.length limit output = .ok reply) ↔
      replyLength input type kind ≤ limit ∧ replyLength input type kind ≤ output.length := by
  have hmax : limit ≤ maxPayload := hlimit.2
  unfold prepareReply
  dsimp only
  rw [← replyLength]
  generalize replyLength input type kind = length
  by_cases hlong : length > limit ∨ length > maxPayload
  · rw [if_pos hlong]
    refine ⟨nofun, fun h => ?_⟩
    omega
  rw [if_neg hlong]
  by_cases hshort : shorterThan output length = true
  · rw [if_pos hshort]
    rw [shorterThan_iff] at hshort
    refine ⟨nofun, fun h => ?_⟩
    omega
  · rw [if_neg hshort]
    rw [shorterThan_iff] at hshort
    exact ⟨fun _ => by omega, fun _ => ⟨_, rfl⟩⟩

/-- What a reply holds. -/
theorem prepareReply_payload {kind : UInt8} {reply : Reply} (hinput : input ≠ [])
    (htype : type.length ≤ input.length)
    (h : prepareReply input kind type.length limit output = .ok reply) :
    reply.payload.length ≤ limit ∧
    reply.payload =
      if echoes kind then (input.getD 0 0 &&& ~~~command) :: input.tail
      else nsc :: (UInt8.ofNat (min type.length maxNscTypeBytes) <<< 1 ||| 1) ::
        input.take (min type.length maxNscTypeBytes) := by
  have hbytes : min type.length maxNscTypeBytes ≤ input.length := by omega
  unfold prepareReply at h
  dsimp only at h
  generalize min type.length maxNscTypeBytes = n at h hbytes ⊢
  cases hecho : echoes kind with
  | true =>
      simp only [hecho, if_true] at h ⊢
      split_ifs at h with hlong hshort
      obtain rfl := Except.ok.inj h
      obtain ⟨b, tail, rfl⟩ := List.exists_cons_of_ne_nil hinput
      refine ⟨(List.length_take_le _ _).trans (by omega), ?_⟩
      simp [blit_zero]
  | false =>
      simp only [hecho, Bool.false_eq_true, if_false] at h ⊢
      split_ifs at h with hlong hshort
      obtain rfl := Except.ok.inj h
      refine ⟨(List.length_take_le _ _).trans (by omega), ?_⟩
      rw [shorterThan_iff] at hshort
      match output with
      | [] => simp at hshort
      | [_] =>
          rw [List.length_singleton] at hshort
          omega
      | _ :: _ :: rest =>
          -- the copied type bytes stand behind the two bytes written first
          have htake : (input.take n).length = n := List.length_take_of_le hbytes
          rw [Nat.add_comm 2 n]
          simp [blit, htake]

/-- **A reply is a message**, of the type that it answers or of the type `NSC`. -/
theorem reply_message {reply : Reply} (hmessage : Message input type value)
    (h : prepareReply input (input.getD 0 0 &&& ~~~command) type.length limit output = .ok reply) :
    ∃ type' value', Message reply.payload type' value' := by
  have hecho : ∀ b : UInt8, echoes (b &&& ~~~command) = true →
      extensionBit b = true ∧ extensionBit (b &&& ~~~command) = true := by decide +kernel
  have hcount : ∀ n, n < 9 → extensionBit (UInt8.ofNat n <<< 1 ||| 1) = true ∧
      ((UInt8.ofNat n <<< 1 ||| 1) >>> 1).toNat = n := by decide +kernel
  have hle := hmessage.type_le
  rw [(prepareReply_payload hmessage.ne_nil hle h).2]
  obtain ⟨kind, length, hinput, htype, hlength, hbytes⟩ := hmessage
  cases hechoes : echoes (input.getD 0 0 &&& ~~~command) with
  | true =>
      rw [if_pos rfl]
      have hbits := hecho _ hechoes
      -- the type is the single byte that is echoed
      cases htype with
      | last b hb =>
          subst hinput
          exact ⟨[b &&& ~~~command], value, _, length, rfl, .last _ hbits.2, hlength, hbytes⟩
      | more b tail n hb htail =>
          subst hinput
          exact absurd (hb.symm.trans hbits.1) (by decide)
  | false =>
      rw [if_neg (by decide)]
      generalize hn : min type.length maxNscTypeBytes = n
      have hsmall : n < 9 := by
        have hmax : maxNscTypeBytes = 8 := rfl
        omega
      obtain ⟨hext, hvalue⟩ := hcount n hsmall
      have htake : (input.take n).length = n := List.length_take_of_le (by omega)
      refine ⟨[nsc], input.take n, _, [UInt8.ofNat n <<< 1 ||| 1], rfl, .last _ (by decide), ?_,
        show 1 ≤ maxLengthBytes by decide⟩
      have hfield := EaField.last _ hext
      rw [hvalue] at hfield
      rwa [htake]

/-- **No reply to a reply.** -/
theorem prepare_reply {reply : Reply} (hmessage : Message input type value)
    (h : prepareReply input (input.getD 0 0 &&& ~~~command) type.length limit output = .ok reply)
    {limit' : Nat} (hlimit : ValidLimit limit') (hfit : reply.payload.length ≤ limit')
    (output' : List UInt8) : prepare reply.payload limit' output' = .ok ⟨.none, none⟩ := by
  obtain ⟨type', value', hreply⟩ := reply_message hmessage h
  rw [prepare_message hlimit hfit hreply, if_pos]
  obtain ⟨b, tail, hcons⟩ := List.exists_cons_of_ne_nil hreply.ne_nil
  rw [hcons]
  exact (prepareReply_answers h).2 b (by rw [hcons]; rfl)

end Parse

/-! ### The contract -/

/-- **What `prepare` accepts**: one message within a valid limit, and for a command a legal body
and a reply that fits. -/
def Accepted (input : List UInt8) (limit : Nat) (output : List UInt8) : Prop :=
  ValidLimit limit ∧ input.length ≤ limit ∧ ∃ type value, Message input type value ∧
    (input.getD 0 0 &&& command ≠ 0 → LegalBody (input.getD 0 0 &&& ~~~command) value ∧
      replyLength input type (input.getD 0 0 &&& ~~~command) ≤ limit ∧
      replyLength input type (input.getD 0 0 &&& ~~~command) ≤ output.length)

variable {input output : List UInt8} {limit : Nat}

/-- An accepted command has an effect and a reply. -/
theorem answered_of_command {type value : List UInt8} {outcome : Outcome}
    (hlimit : ValidLimit limit) (hfit : input.length ≤ limit) (hmessage : Message input type value)
    (hcommand : input.getD 0 0 &&& command ≠ 0) (h : prepare input limit output = .ok outcome) :
    ∃ effect reply, effectOf (input.getD 0 0 &&& ~~~command) value = .ok effect ∧
      prepareReply input (input.getD 0 0 &&& ~~~command) type.length limit output = .ok reply ∧
      outcome = ⟨effect, some reply⟩ := by
  rw [prepare_message hlimit hfit hmessage, if_neg hcommand] at h
  cases heffect : effectOf (input.getD 0 0 &&& ~~~command) value with
  | error e =>
      rw [heffect] at h
      cases h
  | ok effect =>
      cases hreply : prepareReply input (input.getD 0 0 &&& ~~~command) type.length limit output with
      | error e =>
          rw [heffect, hreply] at h
          cases h
      | ok reply =>
          rw [heffect, hreply] at h
          exact ⟨effect, reply, rfl, rfl, (Except.ok.inj h).symm⟩

theorem prepare_ok_iff :
    (∃ outcome, prepare input limit output = .ok outcome) ↔ Accepted input limit output := by
  constructor
  · rintro ⟨outcome, h⟩
    obtain ⟨hlimit, hfit, type, value, hmessage⟩ := message_of_prepare h
    refine ⟨hlimit, hfit, type, value, hmessage, fun hcommand => ?_⟩
    obtain ⟨effect, reply, heffect, hreply, -⟩ :=
      answered_of_command hlimit hfit hmessage hcommand h
    exact ⟨effectOf_ok_iff.mp ⟨effect, heffect⟩,
      (prepareReply_ok_iff hlimit).mp ⟨reply, hreply⟩⟩
  · rintro ⟨hlimit, hfit, type, value, hmessage, hlegal⟩
    rw [prepare_message hlimit hfit hmessage]
    by_cases hcommand : input.getD 0 0 &&& command = 0
    · rw [if_pos hcommand]
      exact ⟨_, rfl⟩
    · rw [if_neg hcommand]
      obtain ⟨effect, heffect⟩ := effectOf_ok_iff.mpr (hlegal hcommand).1
      obtain ⟨reply, hreply⟩ := (prepareReply_ok_iff hlimit).mpr (hlegal hcommand).2
      rw [heffect]
      exact ⟨⟨effect, some reply⟩, by simp only [bind, Except.bind, hreply]⟩

/-- The reply of an accepted command. -/
theorem reply_of_prepare {outcome : Outcome} {reply : Reply}
    (h : prepare input limit output = .ok outcome) (hreply : outcome.reply = some reply) :
    reply.payload.length ≤ limit ∧ ∀ limit' output', ValidLimit limit' →
      reply.payload.length ≤ limit' → prepare reply.payload limit' output' = .ok ⟨.none, none⟩ := by
  obtain ⟨hlimit, hfit, type, value, hmessage⟩ := message_of_prepare h
  by_cases hcommand : input.getD 0 0 &&& command = 0
  · rw [prepare_message hlimit hfit hmessage, if_pos hcommand] at h
    obtain rfl := Except.ok.inj h
    cases hreply
  · obtain ⟨effect, reply', -, hprepared, rfl⟩ :=
      answered_of_command hlimit hfit hmessage hcommand h
    obtain rfl := Option.some.inj hreply
    exact ⟨(prepareReply_payload hmessage.ne_nil hmessage.type_le hprepared).1,
      fun limit' output' hlimit' hfit' => prepare_reply hmessage hprepared hlimit' hfit' output'⟩

/-- **The control signals of a peer**: what `send_local_signals` transmits names its channel and
carries the flow-control bit. -/
theorem prepare_signals (c : Dlci) (paused : Bool) (hlimit : ValidLimit limit) (hfit : 4 ≤ limit)
    (hroom : 4 ≤ output.length) :
    ∃ signals reply, prepare (Session.signalsFrame c paused).payload limit output =
      .ok ⟨.peerSignals (UInt8.ofNat c.val) signals, some reply⟩ ∧
      (signals &&& 2 ≠ 0 ↔ paused = true) := by
  have haddress : ∀ c : Dlci, commandAddress c &&& 3 = 3 ∧
      commandAddress c >>> 2 = UInt8.ofNat c.val := by decide +kernel
  have hsignals : ∀ paused : Bool, ((0x8d : UInt8) ||| if paused then 2 else 0) &&& 1 = 1 ∧
      (((0x8d : UInt8) ||| if paused then 2 else 0) &&& 2 ≠ 0 ↔ paused = true) := by decide
  obtain ⟨hone, hbit⟩ := hsignals paused
  obtain ⟨hthree, hchannel⟩ := haddress c
  show ∃ signals reply, prepare (Session.signalsPayload c paused) limit output = _ ∧ _
  unfold Session.signalsPayload
  generalize (0x8d : UInt8) ||| (if paused then 2 else 0) = signals at hone hbit ⊢
  generalize commandAddress c = address at hthree hchannel ⊢
  have hlength : EaField [5] [address, signals].length := by
    have hcount : ((5 : UInt8) >>> 1).toNat = 2 := by decide
    have hfield := EaField.last 5 (by decide)
    rwa [hcount] at hfield
  have hmessage : Message [Mux.msc ||| 2, 5, address, signals] [Mux.msc ||| 2] [address, signals] :=
    ⟨_, [5], rfl, .last _ (by decide), hlength, show 1 ≤ 3 by decide⟩
  have heffect : effectOf msc [address, signals] = .ok (.peerSignals (address >>> 2) signals) := by
    have hvalid : validMsc [address, signals] = true := by simp [validMsc, hthree, hone]
    simp [effectOf, hvalid, msc, psc, cld, pn]
  have hanswered : (∃ reply, prepareReply [Mux.msc ||| 2, 5, address, signals] msc
      [Mux.msc ||| 2].length limit output = .ok reply) ↔ _ := prepareReply_ok_iff hlimit
  obtain ⟨reply, hreply⟩ := hanswered.mpr ⟨hfit, hroom⟩
  refine ⟨signals, reply, ?_, hbit⟩
  have hcommand : (Mux.msc ||| 2) &&& command ≠ 0 := by decide
  have hkind : (Mux.msc ||| 2) &&& ~~~command = msc := by decide
  have hwithin : [Mux.msc ||| 2, 5, address, signals].length ≤ limit := hfit
  have hfirst : [Mux.msc ||| 2, 5, address, signals].getD 0 0 = Mux.msc ||| 2 := rfl
  rw [prepare_message hlimit hwithin hmessage, hfirst, if_neg hcommand, hkind, heffect, ← hchannel]
  show prepareReply _ msc [Mux.msc ||| 2].length limit output >>= _ = _
  rw [hreply]
  rfl

/-- **Control messages.** `prepare` accepts what `Accepted` says, an error leaves the output buffer
as it was, a reply is accepted in turn without another one, and what a peer sends about the flow of
a channel is read as such. -/
theorem control_messages (input output : List UInt8) (limit : Nat) :
    ((∃ outcome output', prepareInto input limit output = .ok outcome output') ↔
      Accepted input limit output) ∧
    (∀ e output', prepareInto input limit output = .error e output' → output' = output) ∧
    (∀ outcome output' reply, prepareInto input limit output = .ok outcome output' →
      outcome.reply = some reply →
      reply.payload.length ≤ limit ∧ ∀ limit' buffer, ValidLimit limit' →
        reply.payload.length ≤ limit' →
        ∃ buffer', prepareInto reply.payload limit' buffer = .ok ⟨.none, none⟩ buffer') ∧
    ∀ (σ : Type) (sink : Sink σ) (s : Session) (w : σ) (c : Dlci) (paused : Bool),
      Ends (Session.sendLocalSignals sink c paused) (s, w)
        (fun _ st => st.1 = s ∧
          sink (.apply (.transmit (Session.signalsFrame c paused))) w = (true, st.2))
        (fun _ _ => True) ∧
      (ValidLimit limit → 4 ≤ limit → 4 ≤ output.length →
        ∃ signals reply output',
          prepareInto (Session.signalsFrame c paused).payload limit output =
            .ok ⟨.peerSignals (UInt8.ofNat c.val) signals, some reply⟩ output' ∧
          (signals &&& 2 ≠ 0 ↔ paused = true)) := by
  refine ⟨?_, fun e output' => error_of_prepareInto, fun outcome output' reply h hreply => ?_,
    fun σ sink s w c paused => ⟨?_, fun hlimit hfit hroom => ?_⟩⟩
  · rw [← prepare_ok_iff]
    exact exists_congr fun outcome => prepareInto_ok_iff
  · obtain ⟨hfit, hquiet⟩ := reply_of_prepare (prepareInto_ok_iff.mp ⟨output', h⟩) hreply
    exact ⟨hfit, fun limit' buffer hlimit' hfit' =>
      prepareInto_ok_iff.mpr (hquiet limit' buffer hlimit' hfit')⟩
  · exact Session.sendLocalSignals_spec (fun w' hsent => ⟨rfl, hsent⟩) fun _ _ => trivial
  · obtain ⟨signals, reply, h, hbit⟩ := prepare_signals c paused hlimit hfit hroom
    obtain ⟨output', h'⟩ := prepareInto_ok_iff.mpr h
    exact ⟨signals, reply, output', h', hbit⟩

/-- The signals of a paused channel are read as such, and the reply to them in turn without effect; a
message without its value is refused. -/
theorem control_messages_paused :
    (∃ signals reply output' buffer',
      prepareInto (Session.signalsFrame 2 true).payload 31 (List.replicate 31 0) =
        .ok ⟨.peerSignals 2 signals, some reply⟩ output' ∧ signals &&& 2 ≠ 0 ∧
      prepareInto reply.payload 31 [] = .ok ⟨.none, none⟩ buffer') ∧
      ¬ Accepted [msc ||| command] 31 [0] := by
  obtain ⟨s, -⟩ : ∃ s, Session.new [] 31 = .ok s := ⟨_, rfl⟩
  obtain ⟨signals, reply, output', hprepared, hpaused⟩ :=
    ((control_messages [] (List.replicate 31 0) 31).2.2.2 Unit (fun _ _ => (true, ())) s () 2 true).2
      (by decide) (by decide) (by decide)
  obtain ⟨hfit, hagain⟩ := (control_messages _ _ _).2.2.1 _ _ _ hprepared rfl
  obtain ⟨buffer', hquiet⟩ := hagain 31 [] (by decide) hfit
  refine ⟨⟨signals, reply, output', buffer', hprepared, hpaused.mpr rfl, hquiet⟩, ?_⟩
  rw [← (control_messages _ _ _).1]
  rintro ⟨outcome, output', hok⟩
  cases hok

end Mindone.Mux.Mcc
