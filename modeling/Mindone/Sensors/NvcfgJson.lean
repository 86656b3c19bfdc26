import Mathlib.Data.Nat.Digits.Defs
import Mathlib.Data.List.TakeWhile
import Mathlib.Tactic.Common

/-!
# Mindone.Sensors.NvcfgJson

The calibration files of the sensor HAL (`sensors-hf/NvcfgJson.cpp`): an object with one key whose
value is an array of integers. The reader is a scanner with an index into the text; here it is what
is left of the text at that index, so that **an index past the end cannot be written down**.

`Document` is the grammar, stated without the scanner. `readIntArray_iff` says that the reader
accepts exactly its texts, and `document_written` that the writer's texts are among them.
-/

namespace Mindone.Sensors.NvcfgJson

/-- A file's bytes. -/
abbrev Text := List UInt8

def byte (c : Char) : UInt8 := c.toNat.toUInt8

/-- `std::isspace` in the C locale. -/
def isSpace (b : UInt8) : Bool := b = 32 || (9 ≤ b && b ≤ 13)

/-- `std::isdigit` -/
def isDigit (b : UInt8) : Bool := 48 ≤ b && b ≤ 57

/-! ### The reader -/

def skipWs (text : Text) : Text := text.dropWhile isSpace

/-- The text behind the character, which has to be next. -/
def expect (c : Char) : Text → Option Text
  | [] => none
  | b :: text => if b = byte c then some text else none

def llongMax : Int := 2 ^ 63 - 1
def llongMin : Int := -2 ^ 63

/-- The value of a row of digits. -/
def digitsValue (digits : Text) : Nat := digits.foldl (fun n b => 10 * n + (b.toNat - 48)) 0

/-- The value of digits with a sign. -/
def signedValue (sign digits : Text) : Int :=
  if sign = [byte '-'] then -digitsValue digits else digitsValue digits

/-- `strtoll` of a sign and digits, and whether it set `ERANGE`. -/
def strtoll (sign digits : Text) : Int × Bool :=
  if signedValue sign digits < llongMin then (llongMin, true)
  else if llongMax < signedValue sign digits then (llongMax, true)
  else (signedValue sign digits, false)

/-- The sign, if there is one, and the rest. -/
def takeSign : Text → Text × Text
  | [] => ([], [])
  | b :: text => if b = byte '-' ∨ b = byte '+' then ([b], text) else ([], b :: text)

/-- A number, and the text behind it. -/
def readNumber (text : Text) : Option (Int32 × Text) :=
  let (sign, text) := takeSign text
  let digits := text.takeWhile isDigit
  let text := text.dropWhile isDigit
  if digits = [] then none
  else
    let (v, erange) := strtoll sign digits
    if erange ∨ v < Int32.minValue.toInt ∨ Int32.maxValue.toInt < v then none
    else some (Int32.ofInt v, text)

/-- The loop over the numbers; every turn takes a digit at least, so the text is long enough for
its turns. -/
def readValues : Nat → Text → Option (List Int32 × Text)
  | 0, _ => none
  | turns + 1, text =>
      match readNumber (skipWs text) with
      | none => none
      | some (v, text) =>
          match skipWs text with
          | [] => none
          | b :: text =>
              if b = byte ',' then
                (readValues turns text).map fun (vs, text) => (v :: vs, text)
              else if b = byte ']' then some ([v], text)
              else none

/-- The values behind the opening bracket. -/
def readArray (text : Text) : Option (List Int32 × Text) :=
  match expect ']' (skipWs text) with
  | some text => some ([], text)
  | none => readValues (skipWs text).length (skipWs text)

/-- The key, up to the opening bracket. -/
def readHead (text : Text) : Option (Text × Text) := do
  let text ← expect '{' (skipWs text)
  let text ← expect '"' (skipWs text)
  let key := text.takeWhile (· ≠ byte '"')
  let text ← expect '"' (text.dropWhile (· ≠ byte '"'))
  let text ← expect ':' (skipWs text)
  let text ← expect '[' (skipWs text)
  return (key, text)

/-- What is left behind the array. -/
def readTail (text : Text) : Option Unit := do
  let text ← expect '}' (skipWs text)
  if skipWs text = [] then some () else none

/-- What `readIntArray` returns: the values, `*outKeyMismatch` and, where it is set,
`*outActualKey`. -/
structure Reading where
  values : Option (List Int32)
  keyMismatch : Bool
  actualKey : Option Text
  deriving DecidableEq

/-- `readIntArray`; `none` is a file that cannot be opened. -/
def readIntArray (file : Option Text) (expectedKey : Text) : Reading :=
  match file with
  | none => ⟨none, false, none⟩
  | some text =>
      match readHead text with
      | none => ⟨none, false, none⟩
      | some (key, text) =>
          let values := do
            let (vs, text) ← readArray text
            readTail text
            return vs
          ⟨values, decide (key ≠ expectedKey), some key⟩

/-! ### The writer -/

/-- A number in decimal. -/
def decimal (n : Nat) : Text :=
  if n = 0 then [48] else ((Nat.digits 10 n).map fun d => (48 + d).toUInt8).reverse

def writeNumber (v : Int32) : Text :=
  if v.toInt < 0 then byte '-' :: decimal v.toInt.natAbs else decimal v.toInt.natAbs

def bytes (s : String) : Text := s.toList.map byte

/-- The loop over the values. -/
def writeValues : List Int32 → Text
  | [] => []
  | [v] => bytes "      " ++ writeNumber v ++ bytes "\n"
  | v :: w :: vs => bytes "      " ++ writeNumber v ++ bytes ",\n" ++ writeValues (w :: vs)

/-- The text that `writeIntArrayTmp` writes. -/
def written (key : Text) (values : List Int32) : Text :=
  bytes "\x7b\n  \"" ++ key ++ bytes "\": [\n" ++ writeValues values ++ bytes "    ]\n\x7d\n"

/-! ### The grammar -/

def Ws (w : Text) : Prop := ∀ b ∈ w, isSpace b = true

/-- A number in decimal, with a sign or without. -/
inductive Number : Text → Int32 → Prop
  | mk {sign digits : Text} {v : Int32}
      (hsign : sign = [] ∨ sign = [byte '-'] ∨ sign = [byte '+'])
      (hsome : digits ≠ []) (hdigits : ∀ b ∈ digits, isDigit b = true)
      (hvalue : v.toInt = signedValue sign digits) :
      Number (sign ++ digits) v

/-- One number or more, with commas between them. -/
inductive Values : Text → List Int32 → Prop
  | last {before t after : Text} {v : Int32} :
      Ws before → Number t v → Ws after → Values (before ++ (t ++ after)) [v]
  | more {before t after rest : Text} {v : Int32} {vs : List Int32} :
      Ws before → Number t v → Ws after → Values rest vs →
      Values (before ++ (t ++ (after ++ byte ',' :: rest))) (v :: vs)

/-- What stands between the brackets. -/
inductive Array : Text → List Int32 → Prop
  | empty {w : Text} : Ws w → Array w []
  | values {t : Text} {vs : List Int32} : Values t vs → Array t vs

/-- An object with one key and an array, and nothing else. -/
inductive Document : Text → Text → List Int32 → Prop
  | mk {w₀ w₁ key w₂ w₃ body w₄ w₅ : Text} {vs : List Int32} (h₀ : Ws w₀) (h₁ : Ws w₁)
      (hkey : byte '"' ∉ key) (h₂ : Ws w₂) (h₃ : Ws w₃) (hbody : Array body vs) (h₄ : Ws w₄)
      (h₅ : Ws w₅) :
      Document (w₀ ++ byte '{' :: (w₁ ++ byte '"' :: (key ++ byte '"' :: (w₂ ++ byte ':' ::
        (w₃ ++ byte '[' :: (body ++ byte ']' :: (w₄ ++ byte '}' :: w₅))))))) key vs

/-! ### The scanner's small parts -/

section Parts

variable {text rest w : Text} {c : Char} {b : UInt8}

theorem expect_eq_some : expect c text = some rest ↔ text = byte c :: rest := by
  cases text with
  | nil => simp [expect]
  | cons b text =>
      simp only [expect, List.cons.injEq]
      split <;> simp_all

@[simp] theorem expect_cons (c : Char) (rest : Text) : expect c (byte c :: rest) = some rest :=
  expect_eq_some.mpr rfl

theorem skipWs_split (text : Text) : ∃ w, Ws w ∧ text = w ++ skipWs text :=
  ⟨text.takeWhile isSpace, fun _ hb => List.mem_takeWhile_imp hb,
    List.takeWhile_append_dropWhile.symm⟩

theorem skipWs_append (hw : Ws w) (text : Text) : skipWs (w ++ text) = skipWs text := by
  induction w with
  | nil => rfl
  | cons b w ih =>
      have hb : isSpace b = true := hw b (by simp)
      simp only [skipWs, List.cons_append, List.dropWhile_cons, hb, if_true]
      exact ih fun x hx => hw x (by simp [hx])

theorem skipWs_cons (hb : isSpace b = false) (rest : Text) :
    skipWs (b :: rest) = b :: rest := by
  simp [skipWs, hb]

theorem skipWs_ws (hw : Ws w) : skipWs w = [] := by
  have h := skipWs_append hw []
  rw [List.append_nil] at h
  exact h

theorem ws_of_skipWs_nil (h : skipWs text = []) : Ws text := by
  obtain ⟨w, hw, heq⟩ := skipWs_split text
  rw [h, List.append_nil] at heq
  rw [heq]
  exact hw

/-- A character that is expected behind white space. -/
theorem expect_skipWs (hw : Ws w) (hc : isSpace (byte c) = false) (rest : Text) :
    expect c (skipWs (w ++ byte c :: rest)) = some rest := by
  rw [skipWs_append hw, skipWs_cons hc, expect_cons]

theorem split_of_expect (h : expect c (skipWs text) = some rest) :
    ∃ w, Ws w ∧ text = w ++ byte c :: rest := by
  obtain ⟨w, hw, heq⟩ := skipWs_split text
  rw [expect_eq_some.mp h] at heq
  exact ⟨w, hw, heq⟩

end Parts

/-! ### Numbers -/

section Numbers

variable {text rest t : Text} {v : Int32} {n : Nat}

theorem not_space_of_digit {b : UInt8} (h : isDigit b = true) : isSpace b = false := by
  simp only [isDigit, isSpace, Bool.and_eq_true, decide_eq_true_eq, Bool.or_eq_false_iff,
    decide_eq_false_iff_not, Bool.and_eq_false_iff, UInt8.le_iff_toNat_le] at *
  refine ⟨fun heq => ?_, .inr ?_⟩
  · rw [heq] at h
    exact absurd h.1 (by decide)
  · have h13 : (13 : UInt8).toNat = 13 := rfl
    have h48 : (48 : UInt8).toNat = 48 := rfl
    omega

/-- `strtoll` is exact where the value fits into 32 bits. -/
theorem strtoll_eq {sign digits : Text} (hvalue : v.toInt = signedValue sign digits) :
    strtoll sign digits = (v.toInt, false) := by
  have hlow := v.le_toInt
  have hhigh := v.toInt_lt
  unfold strtoll llongMin llongMax
  rw [← hvalue, if_neg (by omega), if_neg (by omega)]

/-- The clipped values are out of range. -/
theorem strtoll_exact {sign digits : Text} {value : Int}
    (h : strtoll sign digits = (value, false)) : value = signedValue sign digits := by
  unfold strtoll at h
  split at h
  · simp at h
  · split at h
    · simp at h
    · simp only [Prod.mk.injEq, and_true] at h
      exact h.symm

/-- **A number that the reader takes is one of the grammar.** -/
theorem number_of_readNumber (h : readNumber text = some (v, rest)) :
    ∃ t, Number t v ∧ text = t ++ rest := by
  unfold readNumber at h
  have hsign : text = (takeSign text).1 ++ (takeSign text).2 ∧ ((takeSign text).1 = [] ∨
      (takeSign text).1 = [byte '-'] ∨ (takeSign text).1 = [byte '+']) := by
    cases text with
    | nil => simp [takeSign]
    | cons b text =>
        simp only [takeSign]
        split
        · rename_i hb
          rcases hb with rfl | rfl <;> simp
        · simp
  generalize takeSign text = parts at h hsign
  obtain ⟨sign, behind⟩ := parts
  obtain ⟨rfl, hsign⟩ := hsign
  dsimp only at h hsign
  split at h
  · cases h
  · rename_i hsome
    generalize hstr : strtoll sign (behind.takeWhile isDigit) = result at h
    obtain ⟨value, erange⟩ := result
    dsimp only at h
    split at h
    · cases h
    · rename_i hfits
      rw [not_or, not_or, Int.not_lt, Int.not_lt] at hfits
      obtain ⟨hrange, hlow, hhigh⟩ := hfits
      simp only [Option.some.injEq, Prod.mk.injEq] at h
      obtain ⟨rfl, rfl⟩ := h
      rw [Bool.not_eq_true] at hrange
      subst hrange
      refine ⟨sign ++ behind.takeWhile isDigit, .mk hsign hsome
        (fun _ hb => List.mem_takeWhile_imp hb) ?_, ?_⟩
      · rw [Int32.toInt_ofInt_of_le hlow (Int.lt_of_le_of_lt hhigh (by decide)), strtoll_exact hstr]
      · rw [List.append_assoc, List.takeWhile_append_dropWhile]

/-- The text behind a number does not go on with a digit. -/
def Stops (rest : Text) : Prop := ∀ b tail, rest = b :: tail → isDigit b = false

theorem takeWhile_digits {digits : Text} (h : ∀ b ∈ digits, isDigit b = true)
    (hrest : Stops rest) :
    (digits ++ rest).takeWhile isDigit = digits ∧ (digits ++ rest).dropWhile isDigit = rest := by
  induction digits with
  | nil =>
      cases rest with
      | nil => simp
      | cons b tail => simp [hrest b tail rfl]
  | cons b digits ih =>
      have hb : isDigit b = true := h b (by simp)
      obtain ⟨htake, hdrop⟩ := ih fun x hx => h x (by simp [hx])
      simp [hb, htake, hdrop]

/-- **And the reader takes every number of the grammar.** -/
theorem readNumber_of_number (h : Number t v) (hrest : Stops rest) :
    readNumber (t ++ rest) = some (v, rest) := by
  obtain ⟨hsign, hsome, hdigits, hvalue⟩ := h
  rename_i sign digits
  have hparts : takeSign (sign ++ digits ++ rest) = (sign, digits ++ rest) := by
    rcases hsign with rfl | rfl | rfl
    · cases digits with
      | nil => exact absurd rfl hsome
      | cons b digits =>
          have hb : isDigit b = true := hdigits b (by simp)
          have hnot : ¬ (b = byte '-' ∨ b = byte '+') := by
            rintro (rfl | rfl) <;> exact absurd hb (by decide)
          simp [takeSign, hnot]
    · simp [takeSign]
    · simp [takeSign]
  obtain ⟨htake, hdrop⟩ := takeWhile_digits hdigits hrest
  unfold readNumber
  rw [hparts]
  dsimp only
  rw [htake, hdrop, if_neg hsome, strtoll_eq hvalue]
  have hfits : ¬ (false = true ∨ v.toInt < Int32.minValue.toInt ∨
      Int32.maxValue.toInt < v.toInt) := by
    have hlow := v.le_toInt
    have hhigh := v.toInt_lt
    rw [show Int32.minValue.toInt = -2 ^ 31 from rfl,
      show Int32.maxValue.toInt = 2 ^ 31 - 1 from rfl]
    rintro (h | h | h)
    · cases h
    · omega
    · omega
  simp only [if_neg hfits, Int32.ofInt_toInt]

end Numbers

/-! ### Arrays -/

section Arrays

variable {text rest body : Text} {vs : List Int32} {turns : Nat}

/-- What is read as values is spelt by the grammar. -/
theorem values_of_readValues (h : readValues turns text = some (vs, rest)) :
    ∃ body, Values body vs ∧ text = body ++ byte ']' :: rest := by
  induction turns generalizing text vs with
  | zero => cases h
  | succ turns ih =>
      obtain ⟨before, hbefore, hskip⟩ := skipWs_split text
      unfold readValues at h
      split at h
      · cases h
      · rename_i v behind hnumber
        obtain ⟨t, ht, hbehind⟩ := number_of_readNumber hnumber
        obtain ⟨after, hafter, hskip'⟩ := skipWs_split behind
        split at h
        · cases h
        · rename_i b tail hnext
          rw [hnext] at hskip'
          split at h
          · -- another number follows
            rename_i hcomma
            obtain ⟨⟨more, rest'⟩, hmore, heq⟩ := Option.map_eq_some_iff.mp h
            simp only [Prod.mk.injEq] at heq
            obtain ⟨rfl, rfl⟩ := heq
            obtain ⟨body, hbody, rfl⟩ := ih hmore
            refine ⟨_, .more hbefore ht hafter hbody, ?_⟩
            rw [hskip, hbehind, hskip', hcomma]
            simp
          · split at h
            · rename_i hbracket
              simp only [Option.some.injEq, Prod.mk.injEq] at h
              obtain ⟨rfl, rfl⟩ := h
              refine ⟨_, .last hbefore ht hafter, ?_⟩
              rw [hskip, hbehind, hskip', hbracket]
              simp
            · cases h

theorem stops_after {after : Text} {b : UInt8} (hafter : Ws after) (hb : isDigit b = false)
    (rest : Text) : Stops (after ++ b :: rest) := by
  intro x tail heq
  cases after with
  | nil =>
      obtain ⟨rfl, -⟩ := List.cons.inj heq
      exact hb
  | cons y after =>
      obtain ⟨rfl, -⟩ := List.cons.inj heq
      have hspace : isSpace y = true := hafter y (by simp)
      cases hdigit : isDigit y with
      | false => rfl
      | true => exact absurd hspace (by simp [not_space_of_digit hdigit])

theorem Number.head {t : Text} {v : Int32} (h : Number t v) (rest : Text) :
    skipWs (t ++ rest) = t ++ rest := by
  obtain ⟨hsign, hsome, hdigits, -⟩ := h
  rename_i sign digits
  rcases hsign with rfl | rfl | rfl
  · cases digits with
    | nil => exact absurd rfl hsome
    | cons b digits => exact skipWs_cons (not_space_of_digit (hdigits b (by simp))) _
  · exact skipWs_cons (by decide) _
  · exact skipWs_cons (by decide) _

/-- Values are read as they are spelt. -/
theorem readValues_of_values (h : Values body vs) (hturns : vs.length ≤ turns) (rest : Text) :
    readValues turns (body ++ byte ']' :: rest) = some (vs, rest) := by
  induction h generalizing turns with
  | last hbefore ht hafter =>
      cases turns with
      | zero => simp at hturns
      | succ turns =>
          unfold readValues
          rw [List.append_assoc, skipWs_append hbefore, List.append_assoc, ht.head,
            readNumber_of_number ht (stops_after hafter (by decide) rest)]
          simp only [skipWs_append hafter, skipWs_cons (show isSpace (byte ']') = false by decide)]
          rw [if_neg (by decide), if_pos trivial]
  | more hbefore ht hafter hbody ih =>
      rename_i before t after inner v vs
      cases turns with
      | zero => simp at hturns
      | succ turns =>
          unfold readValues
          have hshape : before ++ (t ++ (after ++ byte ',' :: inner)) ++ byte ']' :: rest =
              before ++ (t ++ (after ++ byte ',' :: (inner ++ byte ']' :: rest))) := by simp
          rw [hshape, skipWs_append hbefore, ht.head,
            readNumber_of_number ht (stops_after hafter (by decide) _)]
          simp only [skipWs_append hafter, skipWs_cons (show isSpace (byte ',') = false by decide)]
          rw [if_pos trivial, ih (by simpa using hturns)]
          rfl

/-- Every number has a character. -/
theorem Values.length_le (h : Values body vs) : vs.length ≤ body.length := by
  have hpos : ∀ {t v}, Number t v → 1 ≤ t.length := by
    rintro t v ⟨-, hsome, -, -⟩
    rename_i sign digits
    have := List.length_pos_iff.mpr hsome
    simp only [List.length_append]
    omega
  induction h with
  | last _ ht _ =>
      have := hpos ht
      simp only [List.length_append, List.length_singleton]
      omega
  | more _ ht _ _ ih =>
      have := hpos ht
      simp only [List.length_append, List.length_cons]
      omega

theorem Values.prepend {w : Text} (hw : Ws w) (h : Values body vs) : Values (w ++ body) vs := by
  have happend : ∀ {w before : Text}, Ws w → Ws before → Ws (w ++ before) := by
    intro w before hw hbefore b hb
    exact (List.mem_append.mp hb).elim (hw b) (hbefore b)
  cases h with
  | last hbefore ht hafter =>
      rw [← List.append_assoc]
      exact .last (happend hw hbefore) ht hafter
  | more hbefore ht hafter hrest =>
      rw [← List.append_assoc]
      exact .more (happend hw hbefore) ht hafter hrest

theorem Number.not_bracket {t : Text} {v : Int32} (h : Number t v) (rest : Text) :
    expect ']' (t ++ rest) = none := by
  obtain ⟨hsign, hsome, hdigits, -⟩ := h
  rename_i sign digits
  rcases hsign with rfl | rfl | rfl
  · cases digits with
    | nil => exact absurd rfl hsome
    | cons b digits =>
        have hb : isDigit b = true := hdigits b (by simp)
        refine if_neg ?_
        rintro rfl
        exact absurd hb (by decide)
  · rfl
  · rfl

/-- Behind the white space there is a number, and no bracket. -/
theorem Values.skip (h : Values body vs) : ∃ body', Values body' vs ∧
    ∀ rest, skipWs (body ++ rest) = body' ++ rest ∧ expect ']' (body' ++ rest) = none := by
  have hnil : Ws [] := fun _ hb => absurd hb List.not_mem_nil
  cases h with
  | last hbefore ht hafter =>
      refine ⟨_, .last hnil ht hafter, fun rest => ?_⟩
      simp only [List.nil_append, List.append_assoc]
      rw [skipWs_append hbefore, ht.head]
      exact ⟨rfl, ht.not_bracket _⟩
  | more hbefore ht hafter hrest =>
      refine ⟨_, .more hnil ht hafter hrest, fun rest => ?_⟩
      simp only [List.nil_append, List.append_assoc]
      rw [skipWs_append hbefore, ht.head]
      exact ⟨rfl, ht.not_bracket _⟩

theorem array_of_readArray (h : readArray text = some (vs, rest)) :
    ∃ body, Array body vs ∧ text = body ++ byte ']' :: rest := by
  unfold readArray at h
  split at h
  · rename_i behind hempty
    simp only [Option.some.injEq, Prod.mk.injEq] at h
    obtain ⟨rfl, rfl⟩ := h
    obtain ⟨w, hw, heq⟩ := split_of_expect hempty
    exact ⟨w, .empty hw, heq⟩
  · obtain ⟨w, hw, heq⟩ := skipWs_split text
    obtain ⟨body, hbody, hshape⟩ := values_of_readValues h
    refine ⟨w ++ body, .values (hbody.prepend hw), ?_⟩
    rw [List.append_assoc, ← hshape]
    exact heq

theorem readArray_of_array (h : Array body vs) (rest : Text) :
    readArray (body ++ byte ']' :: rest) = some (vs, rest) := by
  unfold readArray
  cases h with
  | empty hw => rw [expect_skipWs hw (by decide)]
  | values hvalues =>
      obtain ⟨body', hbody', hskip⟩ := hvalues.skip
      obtain ⟨heq, hnone⟩ := hskip (byte ']' :: rest)
      rw [heq, hnone]
      refine readValues_of_values hbody' (hbody'.length_le.trans ?_) rest
      simp

end Arrays

/-! ### Documents -/

section Documents

variable {text rest key : Text} {vs : List Int32}

theorem key_split {key : Text} (hkey : byte '"' ∉ key) (rest : Text) :
    (key ++ byte '"' :: rest).takeWhile (· ≠ byte '"') = key ∧
      (key ++ byte '"' :: rest).dropWhile (· ≠ byte '"') = byte '"' :: rest := by
  induction key with
  | nil => simp
  | cons b key ih =>
      have hb : b ≠ byte '"' := fun heq => hkey (by simp [heq])
      obtain ⟨htake, hdrop⟩ := ih fun hmem => hkey (by simp [hmem])
      refine ⟨?_, ?_⟩
      · simp only [List.cons_append]
        rw [List.takeWhile_cons_of_pos (by simpa using hb), htake]
      · simp only [List.cons_append]
        rw [List.dropWhile_cons_of_pos (by simpa using hb), hdrop]

theorem head_of_readHead (h : readHead text = some (key, rest)) : byte '"' ∉ key ∧
    ∃ w₀ w₁ w₂ w₃, Ws w₀ ∧ Ws w₁ ∧ Ws w₂ ∧ Ws w₃ ∧ text = w₀ ++ byte '{' :: (w₁ ++ byte '"' ::
      (key ++ byte '"' :: (w₂ ++ byte ':' :: (w₃ ++ byte '[' :: rest)))) := by
  unfold readHead at h
  simp only [Option.bind_eq_bind, Option.bind_eq_some_iff, Option.pure_def, Option.some.injEq,
    Prod.mk.injEq] at h
  obtain ⟨t₁, ht₁, t₂, ht₂, t₃, ht₃, t₄, ht₄, t₅, ht₅, rfl, rfl⟩ := h
  obtain ⟨w₀, hw₀, rfl⟩ := split_of_expect ht₁
  obtain ⟨w₁, hw₁, rfl⟩ := split_of_expect ht₂
  obtain ⟨w₂, hw₂, rfl⟩ := split_of_expect ht₄
  obtain ⟨w₃, hw₃, rfl⟩ := split_of_expect ht₅
  refine ⟨fun hmem => ?_, w₀, w₁, w₂, w₃, hw₀, hw₁, hw₂, hw₃, ?_⟩
  · have hne : decide (byte '"' ≠ byte '"') = true :=
      List.mem_takeWhile_imp (p := fun x => decide (x ≠ byte '"')) hmem
    exact absurd rfl (of_decide_eq_true hne)
  · rw [← expect_eq_some.mp ht₃, List.takeWhile_append_dropWhile]

theorem readTail_eq_some : readTail text = some () ↔
    ∃ w₄ w₅, Ws w₄ ∧ Ws w₅ ∧ text = w₄ ++ byte '}' :: w₅ := by
  unfold readTail
  simp only [Option.bind_eq_bind, Option.bind_eq_some_iff]
  constructor
  · rintro ⟨t, ht, hend⟩
    obtain ⟨w₄, hw₄, rfl⟩ := split_of_expect ht
    split at hend
    · exact ⟨w₄, t, hw₄, ws_of_skipWs_nil ‹_›, rfl⟩
    · cases hend
  · rintro ⟨w₄, w₅, hw₄, hw₅, rfl⟩
    exact ⟨w₅, expect_skipWs hw₄ (by decide) w₅, if_pos (skipWs_ws hw₅)⟩

/-- A text of the grammar is read. -/
theorem readIntArray_of_document (h : Document text key vs) (expectedKey : Text) :
    readIntArray (some text) expectedKey = ⟨some vs, decide (key ≠ expectedKey), some key⟩ := by
  obtain ⟨h₀, h₁, hkey, h₂, h₃, hbody, h₄, h₅⟩ := h
  rename_i w₀ w₁ w₂ w₃ body w₄ w₅
  obtain ⟨htake, hdrop⟩ := key_split hkey
    (w₂ ++ byte ':' :: (w₃ ++ byte '[' :: (body ++ byte ']' :: (w₄ ++ byte '}' :: w₅))))
  have hhead : readHead (w₀ ++ byte '{' :: (w₁ ++ byte '"' :: (key ++ byte '"' ::
      (w₂ ++ byte ':' :: (w₃ ++ byte '[' :: (body ++ byte ']' :: (w₄ ++ byte '}' :: w₅))))))) =
      some (key, body ++ byte ']' :: (w₄ ++ byte '}' :: w₅)) := by
    unfold readHead
    rw [expect_skipWs h₀ (by decide)]
    simp only [Option.bind_eq_bind, Option.bind_some]
    rw [expect_skipWs h₁ (by decide)]
    simp only [Option.bind_some]
    rw [htake, hdrop, expect_cons]
    simp only [Option.bind_some]
    rw [expect_skipWs h₂ (by decide)]
    simp only [Option.bind_some]
    rw [expect_skipWs h₃ (by decide)]
    rfl
  have htail := readTail_eq_some.mpr ⟨w₄, w₅, h₄, h₅, rfl⟩
  unfold readIntArray
  simp only [hhead, readArray_of_array hbody, Option.bind_eq_bind, Option.bind_some, htail]
  rfl

/-- **The reader accepts exactly the texts of the grammar.** -/
theorem readIntArray_iff (text expectedKey : Text) (vs : List Int32) :
    (readIntArray (some text) expectedKey).values = some vs ↔ ∃ key, Document text key vs := by
  constructor
  · intro h
    unfold readIntArray at h
    dsimp only at h
    split at h
    · cases h
    · rename_i key rest hhead
      simp only [Option.bind_eq_bind, Option.bind_eq_some_iff, Option.pure_def] at h
      obtain ⟨⟨values, behind⟩, harray, ⟨⟩, htail, heq⟩ := h
      obtain rfl := Option.some.inj heq
      obtain ⟨hkey, w₀, w₁, w₂, w₃, hw₀, hw₁, hw₂, hw₃, rfl⟩ := head_of_readHead hhead
      obtain ⟨body, hbody, rfl⟩ := array_of_readArray harray
      obtain ⟨w₄, w₅, hw₄, hw₅, rfl⟩ := readTail_eq_some.mp htail
      exact ⟨key, .mk hw₀ hw₁ hkey hw₂ hw₃ hbody hw₄ hw₅⟩
  · rintro ⟨key, h⟩
    rw [readIntArray_of_document h]

end Documents

/-! ### What the writer writes -/

section Written

variable {key : Text} {vs : List Int32}

/-- The digits of a number, from the last one on. -/
theorem digitsValue_reverse (digits : List Nat) (h : ∀ d ∈ digits, d < 10) :
    digitsValue (digits.map fun d => (48 + d).toUInt8).reverse = Nat.ofDigits 10 digits := by
  induction digits with
  | nil => rfl
  | cons d digits ih =>
      have hd : d < 10 := h d (by simp)
      have htail := ih fun x hx => h x (by simp [hx])
      have hbyte : ((48 + d).toUInt8).toNat = 48 + d := by
        simp only [Nat.toUInt8_eq, UInt8.toNat_ofNat']
        omega
      simp only [digitsValue, List.map_cons, List.reverse_cons, List.foldl_append, List.foldl_cons,
        List.foldl_nil] at htail ⊢
      rw [htail, hbyte, Nat.ofDigits_cons]
      omega

theorem digitsValue_decimal (n : Nat) : digitsValue (decimal n) = n := by
  unfold decimal
  split
  · rename_i hzero
    rw [hzero]
    rfl
  · rw [digitsValue_reverse _ fun d hd => Nat.digits_lt_base (by decide) hd, Nat.ofDigits_digits]

theorem isDigit_decimal (n : Nat) : ∀ b ∈ decimal n, isDigit b = true := by
  unfold decimal
  split
  · simp [isDigit]
  · intro b hb
    obtain ⟨d, hd, rfl⟩ := List.mem_map.mp (List.mem_reverse.mp hb)
    have hlt : d < 10 := Nat.digits_lt_base (by decide) hd
    simp only [isDigit, Bool.and_eq_true, decide_eq_true_eq, UInt8.le_iff_toNat_le,
      Nat.toUInt8_eq, UInt8.toNat_ofNat']
    have h48 : (48 : UInt8).toNat = 48 := rfl
    have h57 : (57 : UInt8).toNat = 57 := rfl
    omega

theorem decimal_ne_nil (n : Nat) : decimal n ≠ [] := by
  unfold decimal
  split
  · simp
  · rename_i hzero
    simpa [Nat.digits_eq_nil_iff_eq_zero] using hzero

theorem number_writeNumber (v : Int32) : Number (writeNumber v) v := by
  unfold writeNumber
  split
  · rename_i hneg
    refine @Number.mk [byte '-'] (decimal v.toInt.natAbs) v (.inr (.inl rfl)) (decimal_ne_nil _)
      (isDigit_decimal _) ?_
    rw [signedValue, if_pos rfl, digitsValue_decimal]
    omega
  · rename_i hpos
    refine @Number.mk [] (decimal v.toInt.natAbs) v (.inl rfl) (decimal_ne_nil _)
      (isDigit_decimal _) ?_
    rw [signedValue, if_neg (by simp), digitsValue_decimal]
    omega

theorem ws_bytes {s : String} (h : (bytes s).all isSpace = true) : Ws (bytes s) :=
  List.all_eq_true.mp h

/-- The values that are written are an array of the grammar. -/
theorem array_writeValues (vs : List Int32) :
    Array (bytes "\n" ++ (writeValues vs ++ bytes "    ")) vs := by
  have hmore : ∀ (v : Int32) (vs : List Int32) (w : Text), Ws w →
      Values (w ++ (writeValues (v :: vs) ++ bytes "    ")) (v :: vs) := by
    intro v vs
    induction vs generalizing v with
    | nil =>
        intro w hw
        have hbefore : Ws (w ++ bytes "      ") := fun b hb =>
          (List.mem_append.mp hb).elim (hw b) (ws_bytes (by decide) b)
        have hafter : Ws (bytes "\n" ++ bytes "    ") := ws_bytes (s := "\n    ") (by decide)
        have h := Values.last hbefore (number_writeNumber v) hafter
        simpa [writeValues] using h
    | cons x vs ih =>
        intro w hw
        have hbefore : Ws (w ++ bytes "      ") := fun b hb =>
          (List.mem_append.mp hb).elim (hw b) (ws_bytes (by decide) b)
        have hrest := ih x (bytes "\n") (ws_bytes (by decide))
        have hnil : Ws [] := fun _ hb => absurd hb List.not_mem_nil
        have h := Values.more hbefore (number_writeNumber v) hnil hrest
        simpa [writeValues, bytes] using h
  cases vs with
  | nil => exact .empty (ws_bytes (s := "\n    ") (by decide))
  | cons v vs => exact .values (hmore v vs _ (ws_bytes (by decide)))

/-- **What the writer writes is a text of the grammar.** -/
theorem document_written (hkey : byte '"' ∉ key) (vs : List Int32) :
    Document (written key vs) key vs := by
  have hnil : Ws [] := fun _ hb => absurd hb List.not_mem_nil
  have h := Document.mk hnil (ws_bytes (s := "\n  ") (by decide)) hkey hnil
    (ws_bytes (s := " ") (by decide)) (array_writeValues vs) (ws_bytes (s := "\n") (by decide))
    (ws_bytes (s := "\n") (by decide))
  simpa [written, bytes] using h

end Written

/-- **The codec.** What is written is read back, and only texts of the grammar are read. -/
theorem readIntArray_codec :
    (∀ (key : Text) (vs : List Int32), byte '"' ∉ key →
      readIntArray (some (written key vs)) key = ⟨some vs, false, some key⟩) ∧
    (∀ (text expectedKey : Text) (vs : List Int32),
      (readIntArray (some text) expectedKey).values = some vs ↔
        ∃ key, Document text key vs) := by
  refine ⟨fun key vs hkey => ?_, readIntArray_iff⟩
  rw [readIntArray_of_document (document_written hkey vs) key, decide_eq_false (by simp)]

/-- A text of the writer, one that is written by hand, and one that breaks off behind a comma. -/
theorem readIntArray_codec_bias :
    readIntArray (some (written (bytes "acc_bias") [3, -7])) (bytes "acc_bias") =
        ⟨some [3, -7], false, some (bytes "acc_bias")⟩ ∧
      (∃ key, Document (bytes "\x7b\"k\": [ +7 ,-0]\x7d ") key [7, 0]) ∧
      ¬ ∃ key, Document (bytes "\x7b\"k\": [7,]\x7d") key [7] := by
  refine ⟨readIntArray_codec.1 _ _ (by decide +kernel), ?_, ?_⟩
  · exact (readIntArray_codec.2 _ (bytes "k") _).mp (by decide +kernel)
  · rw [← readIntArray_codec.2 _ (bytes "k")]
    decide +kernel

end Mindone.Sensors.NvcfgJson
