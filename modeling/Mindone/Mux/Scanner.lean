import Mathlib.Data.List.GetD
import Mindone.Lib.Lexer
import Mindone.Mux.Decoder

/-!
# Mindone.Mux.Scanner

The **reference scanner**: what the decoder is for, stated over whole byte
streams. It walks from left to right. A byte that is no flag is noise; a flag
followed by a flag is skipped; at any other flag it takes the candidate header,
length, checksum and closing flag. A candidate that is oversized, has a bad
checksum or lacks its closing flag costs one byte, an accepted frame is left at
its closing flag, and a candidate whose bytes have not all arrived makes the
scanner wait.

The scanner is a `Lexer`, so reading a stream in chunks is reading it whole.
`scanStep_wire` is the round trip of one frame, `run_frames` and
`run_shared_frames` that of a list of frames.
-/

namespace Mindone.Mux

open Mindone.Lib

/-- What one step of the scanner reports. -/
inductive Token
  | noise
  | oversized
  | badChecksum
  | missingClosingFlag
  | frame (frame : Frame)
  deriving DecidableEq

namespace Token

def frame? : Token → Option Frame
  | .frame f => some f
  | _ => none

/-- The counter a token adds to. -/
def count (stats : DecodeStats) : Token → DecodeStats
  | .noise => { stats with discardedBytes := saturatingAdd stats.discardedBytes 1 }
  | .oversized => { stats with oversizedFrames := saturatingAdd stats.oversizedFrames 1 }
  | .badChecksum => { stats with badChecksums := saturatingAdd stats.badChecksums 1 }
  | .missingClosingFlag =>
      { stats with missingClosingFlags := saturatingAdd stats.missingClosingFlags 1 }
  | .frame _ => stats

end Token

/-- The frames among some tokens. -/
def frames (tokens : List Token) : List Frame := tokens.filterMap Token.frame?

/-- The counters after some tokens. -/
def countTokens (stats : DecodeStats) (tokens : List Token) : DecodeStats :=
  tokens.foldl Token.count stats

@[simp] theorem frames_nil : frames [] = [] := rfl

@[simp] theorem frames_append (ts us : List Token) : frames (ts ++ us) = frames ts ++ frames us :=
  List.filterMap_append

@[simp] theorem frames_map_frame (fs : List Frame) : frames (fs.map Token.frame) = fs := by
  induction fs with
  | nil => rfl
  | cons f fs ih => simpa [frames, Token.frame?] using ih

@[simp] theorem countTokens_nil (stats : DecodeStats) : countTokens stats [] = stats := rfl

@[simp] theorem countTokens_append (stats : DecodeStats) (ts us : List Token) :
    countTokens stats (ts ++ us) = countTokens (countTokens stats ts) us :=
  List.foldl_append

@[simp] theorem countTokens_map_frame (stats : DecodeStats) (fs : List Frame) :
    countTokens stats (fs.map Token.frame) = stats := by
  induction fs with
  | nil => rfl
  | cons f fs ih => simpa [countTokens, Token.count] using ih

/-! ### One step -/

/-- The payload size, the header bytes and the bytes behind them, once the
length field is complete. -/
def splitHeader (address control first : UInt8) (tail : List UInt8) :
    Option (Nat × List UInt8 × List UInt8) :=
  if first &&& 1 = 0 then
    match tail with
    | [] => none
    | second :: rest =>
        some ((first >>> 1).toNat ||| second.toNat <<< 7, [address, control, first, second], rest)
  else some ((first >>> 1).toNat, [address, control, first], tail)

/-- The candidate with a complete header, over the bytes `rest` behind it. -/
def takeCandidate (limit : Nat) (address control : UInt8) (size : Nat)
    (header rest : List UInt8) : Option (List Token × Nat) :=
  if size > limit then some ([.oversized], 1)
  else if rest.length < size + 2 then none
  else if frameCrc control header (rest.take size) ^^^ rest.getD size 0 ≠ 0xff then
    some ([.badChecksum], 1)
  else if rest.getD (size + 1) 0 ≠ flag then some ([.missingClosingFlag], 1)
  else some ([.frame ⟨address, control, rest.take size⟩], header.length + size + 2)

/-- Behind a flag: skip it when another flag follows, else take the candidate. -/
def afterFlag (limit : Nat) : List UInt8 → Option (List Token × Nat)
  | [] => none
  | address :: rest =>
      if address = flag then some ([], 1)
      else
        match rest with
        | control :: first :: tail =>
            (splitHeader address control first tail).bind fun (size, header, rest) =>
              takeCandidate limit address control size header rest
        | _ => none

/-- One step of the reference scanner. -/
def scanStep (limit : Nat) : List UInt8 → Option (List Token × Nat)
  | [] => none
  | byte :: rest => if byte = flag then afterFlag limit rest else some ([.noise], 1)

theorem splitHeader_append {address control first : UInt8} {tail : List UInt8}
    {size : Nat} {header rest : List UInt8}
    (h : splitHeader address control first tail = some (size, header, rest))
    (ys : List UInt8) :
    splitHeader address control first (tail ++ ys) = some (size, header, rest ++ ys) := by
  unfold splitHeader at h ⊢
  split at h
  case isTrue hext =>
      rw [if_pos hext]
      cases tail with
      | nil => cases h
      | cons second tail => cases h; rfl
  case isFalse hext =>
      rw [if_neg hext]
      cases h
      rfl

/-- The bytes of a candidate: three or four of header and those behind. -/
theorem splitHeader_length {address control first : UInt8} {tail : List UInt8}
    {size : Nat} {header rest : List UInt8}
    (h : splitHeader address control first tail = some (size, header, rest)) :
    address :: control :: first :: tail = header ++ rest := by
  unfold splitHeader at h
  split at h
  · cases tail with
    | nil => cases h
    | cons second tail => cases h; rfl
  · cases h
    rfl

theorem takeCandidate_append {limit : Nat} {address control : UInt8} {size : Nat}
    {header rest : List UInt8} {r : List Token × Nat}
    (h : takeCandidate limit address control size header rest = some r) (ys : List UInt8) :
    takeCandidate limit address control size header (rest ++ ys) = some r := by
  unfold takeCandidate at h ⊢
  by_cases hlimit : size > limit
  · simpa [hlimit] using h
  · by_cases hshort : rest.length < size + 2
    · simp [hlimit, hshort] at h
    · -- all bytes the candidate looks at have arrived
      have hlong : ¬ (rest ++ ys).length < size + 2 := by
        rw [List.length_append]
        omega
      have htake : (rest ++ ys).take size = rest.take size :=
        List.take_append_of_le_length (by omega)
      have hget : ∀ k, k < size + 2 → (rest ++ ys).getD k 0 = rest.getD k 0 := fun k hk =>
        List.getD_append _ _ _ _ (by omega)
      simp only [hlimit, hshort, hlong, htake, hget size (by omega), hget (size + 1) (by omega),
        if_false] at h ⊢
      exact h

theorem takeCandidate_bounds {limit : Nat} {address control : UInt8} {size : Nat}
    {header rest : List UInt8} {out : List Token} {n : Nat}
    (h : takeCandidate limit address control size header rest = some (out, n)) :
    0 < n ∧ n ≤ 1 + header.length + rest.length := by
  unfold takeCandidate at h
  split_ifs at h <;> cases h <;> omega

theorem afterFlag_bounds {limit : Nat} {xs : List UInt8} {out : List Token} {n : Nat}
    (h : afterFlag limit xs = some (out, n)) : 0 < n ∧ n ≤ xs.length + 1 := by
  cases xs with
  | nil => cases h
  | cons address rest =>
      simp only [afterFlag] at h
      split at h
      · cases h
        simp
      · split at h
        · obtain ⟨⟨size, header, rest'⟩, hsplit, htake⟩ := Option.bind_eq_some_iff.mp h
          have hlen := congrArg List.length (splitHeader_length hsplit)
          obtain ⟨hpos, hle⟩ := takeCandidate_bounds htake
          simp only [List.length_cons, List.length_append] at hlen hle ⊢
          omega
        · cases h

theorem afterFlag_append {limit : Nat} {xs : List UInt8} {r : List Token × Nat}
    (h : afterFlag limit xs = some r) (ys : List UInt8) :
    afterFlag limit (xs ++ ys) = some r := by
  cases xs with
  | nil => cases h
  | cons address rest =>
      simp only [afterFlag, List.cons_append] at h ⊢
      by_cases haddr : address = flag
      · simpa [haddr] using h
      · rw [if_neg haddr] at h ⊢
        match rest, h with
        | control :: first :: tail, h =>
            obtain ⟨⟨size, header, rest⟩, hsplit, htake⟩ := Option.bind_eq_some_iff.mp h
            simp only [List.cons_append]
            rw [splitHeader_append hsplit ys]
            exact takeCandidate_append htake ys

theorem scanStep_bounds {limit : Nat} {xs : List UInt8} {out : List Token} {n : Nat}
    (h : scanStep limit xs = some (out, n)) : 0 < n ∧ n ≤ xs.length := by
  cases xs with
  | nil => cases h
  | cons byte rest =>
      simp only [scanStep] at h
      split at h
      · exact afterFlag_bounds h
      · cases h
        simp

theorem scanStep_append {limit : Nat} {xs : List UInt8} {r : List Token × Nat}
    (h : scanStep limit xs = some r) (ys : List UInt8) : scanStep limit (xs ++ ys) = some r := by
  cases xs with
  | nil => cases h
  | cons byte rest =>
      simp only [scanStep, List.cons_append] at h ⊢
      split at h
      case isTrue hbyte => rw [if_pos hbyte]; exact afterFlag_append h ys
      case isFalse hbyte => rw [if_neg hbyte]; exact h

/-- The reference scanner as a lexer of bytes. -/
def scanner (limit : Nat) : Lexer UInt8 Token where
  step := scanStep limit
  step_pos h := (scanStep_bounds h).1
  step_le h := (scanStep_bounds h).2
  stable h := scanStep_append h

/-! ### Waiting -/

theorem takeCandidate_none {limit : Nat} {address control : UInt8} {size : Nat}
    {header rest : List UInt8}
    (h : takeCandidate limit address control size header rest = none) :
    rest.length ≤ limit + 1 := by
  unfold takeCandidate at h
  split_ifs at h
  omega

theorem splitHeader_none {address control first : UInt8} {tail : List UInt8}
    (h : splitHeader address control first tail = none) : tail = [] := by
  unfold splitHeader at h
  split at h
  · cases tail with
    | nil => rfl
    | cons second tail => cases h
  · cases h

theorem splitHeader_header_le {address control first : UInt8} {tail : List UInt8}
    {size : Nat} {header rest : List UInt8}
    (h : splitHeader address control first tail = some (size, header, rest)) :
    header.length ≤ 4 := by
  unfold splitHeader at h
  split at h
  · cases tail with
    | nil => cases h
    | cons second tail => cases h; simp
  · cases h
    simp

/-- A frame that is not complete is short. -/
theorem afterFlag_none {limit : Nat} {xs : List UInt8} (h : afterFlag limit xs = none) :
    xs.length ≤ limit + 5 := by
  cases xs with
  | nil => simp
  | cons address rest =>
      simp only [afterFlag] at h
      split at h
      · cases h
      · match rest, h with
        | [], _ => simp
        | [control], _ => simp
        | control :: first :: tail, h =>
            simp only [List.length_cons]
            cases hsplit : splitHeader address control first tail with
            | none =>
                rw [splitHeader_none hsplit]
                simp
            | some parts =>
                obtain ⟨size, header, rest⟩ := parts
                simp only [hsplit, Option.bind_some] at h
                have hrest := takeCandidate_none h
                have hheader := splitHeader_header_le hsplit
                have hlen := congrArg List.length (splitHeader_length hsplit)
                simp only [List.length_cons, List.length_append] at hlen
                omega

/-- A waiting scanner holds less than one frame of the largest size. -/
theorem scanStep_none_length {limit : Nat} {xs : List UInt8} (h : scanStep limit xs = none) :
    xs.length ≤ limit + 6 := by
  cases xs with
  | nil => simp
  | cons byte rest =>
      simp only [scanStep] at h
      split at h
      · have := afterFlag_none h
        simp only [List.length_cons]
        omega
      · cases h

/-- A scanner that waits with input left waits behind a flag. -/
theorem scanStep_none_head {limit : Nat} {byte : UInt8} {xs : List UInt8}
    (h : scanStep limit (byte :: xs) = none) : byte = flag := by
  by_contra hne
  simp [scanStep, hne] at h

/-! ### The round trip of the length field -/

theorem shortLength {n : Nat} (h : n < 128) :
    (UInt8.ofNat (n <<< 1) ||| 1) &&& 1 ≠ 0 ∧
      ((UInt8.ofNat (n <<< 1) ||| 1) >>> 1).toNat = n := by
  have key : ∀ m : Fin 128, (UInt8.ofNat (m.val <<< 1) ||| 1) &&& 1 ≠ 0 ∧
      ((UInt8.ofNat (m.val <<< 1) ||| 1) >>> 1).toNat = m.val := by decide +kernel
  exact key ⟨n, h⟩

theorem longLength {n : Nat} (h : n ≤ maxPayload) :
    UInt8.ofNat (n <<< 1) &&& 1 = 0 ∧
      (UInt8.ofNat (n <<< 1) >>> 1).toNat ||| (UInt8.ofNat (n >>> 7)).toNat <<< 7 = n := by
  have hn : n < 32768 := by unfold maxPayload at h; omega
  have hlow : (UInt8.ofNat (n <<< 1)) = UInt8.ofNat ((n % 128) <<< 1) := by
    apply UInt8.toNat_inj.mp
    simp only [UInt8.toNat_ofNat', Nat.shiftLeft_eq]
    omega
  have key : ∀ m : Fin 128, UInt8.ofNat (m.val <<< 1) &&& 1 = 0 ∧
      (UInt8.ofNat (m.val <<< 1) >>> 1).toNat = m.val := by decide +kernel
  obtain ⟨heven, hval⟩ := key ⟨n % 128, Nat.mod_lt _ (by omega)⟩
  rw [hlow, hval]
  refine ⟨heven, ?_⟩
  have hhigh : (UInt8.ofNat (n >>> 7)).toNat = n / 128 := by
    simp only [UInt8.toNat_ofNat', Nat.shiftRight_eq_div_pow]
    omega
  have hor := Nat.two_pow_add_eq_or_of_lt (i := 7) (Nat.mod_lt n (by omega : 128 > 0)) (n / 128)
  rw [hhigh, Nat.shiftLeft_eq, Nat.or_comm, Nat.mul_comm, ← hor]
  omega

/-- The scanner reads back the length field the encoder writes. -/
theorem splitHeader_lengthField (frame : Frame) (h : frame.payload.length ≤ maxPayload)
    (rest : List UInt8) :
    ∃ first tail, frame.header ++ rest = frame.address :: frame.control :: first :: tail ∧
      splitHeader frame.address frame.control first tail =
        some (frame.payload.length, frame.header, rest) := by
  unfold Frame.header lengthField
  by_cases hshort : frame.payload.length < 128
  · obtain ⟨hodd, hval⟩ := shortLength hshort
    rw [if_pos hshort]
    refine ⟨_, rest, rfl, ?_⟩
    simp only [splitHeader, if_neg hodd, hval]
  · obtain ⟨heven, hval⟩ := longLength h
    rw [if_neg hshort]
    refine ⟨_, UInt8.ofNat (frame.payload.length >>> 7) :: rest, rfl, ?_⟩
    simp only [splitHeader, if_pos heven, hval]

/-! ### The round trip of a frame -/

theorem xor_not_self (b : UInt8) : b ^^^ ~~~b = 0xff := by
  revert b
  decide +kernel

/-- **The scanner accepts every encoded frame** and goes on at its closing
flag. An address equal to the flag would make the opening flag part of a run of
flags; `Frame.command` never builds one. -/
theorem scanStep_wire {limit : Nat} {frame : Frame} (haddr : frame.address ≠ flag)
    (hlimit : ValidLimit limit) (hpayload : frame.payload.length ≤ limit) (ys : List UInt8) :
    scanStep limit (frame.wire ++ ys) = some ([.frame frame], frame.body.length) := by
  have hmax : frame.payload.length ≤ maxPayload := Nat.le_trans hpayload hlimit.2
  obtain ⟨first, tail, hbytes, hsplit⟩ :=
    splitHeader_lengthField frame hmax (frame.payload ++ [frame.fcs, flag] ++ ys)
  have hwire : frame.wire ++ ys = flag :: frame.address :: frame.control :: first :: tail := by
    rw [← hbytes]
    simp [Frame.wire, Frame.body]
  have hfcs : frameCrc frame.control frame.header frame.payload ^^^ frame.fcs = 0xff :=
    xor_not_self _
  have htake : takeCandidate limit frame.address frame.control frame.payload.length frame.header
      (frame.payload ++ [frame.fcs, flag] ++ ys) = some ([.frame frame], frame.body.length) := by
    have hroom : ¬ (frame.payload ++ [frame.fcs, flag] ++ ys).length <
        frame.payload.length + 2 := by simp
    have hpay : (frame.payload ++ [frame.fcs, flag] ++ ys).take frame.payload.length =
        frame.payload := by simp
    have hcheck : (frame.payload ++ [frame.fcs, flag] ++ ys).getD frame.payload.length 0 =
        frame.fcs := by simp
    have hclose : (frame.payload ++ [frame.fcs, flag] ++ ys).getD (frame.payload.length + 1) 0 =
        flag := by simp
    unfold takeCandidate
    rw [if_neg (by omega), if_neg hroom, hpay, hcheck, hclose, if_neg (by simp [hfcs]),
      if_neg (by simp)]
    simp [Frame.body]
    omega
  rw [hwire]
  simp only [scanStep, afterFlag, if_true, haddr, if_false, hsplit, Option.bind_some]
  exact htake

/-- After an encoded frame the scan goes on at its closing flag. -/
theorem run_wire_append {limit : Nat} {frame : Frame} (haddr : frame.address ≠ flag)
    (hlimit : ValidLimit limit) (hpayload : frame.payload.length ≤ limit) (ys : List UInt8) :
    (scanner limit).run (frame.wire ++ ys) =
      (.frame frame :: ((scanner limit).run (flag :: ys)).1,
        ((scanner limit).run (flag :: ys)).2) := by
  have hstep : (scanner limit).step (frame.wire ++ ys) = some ([.frame frame], frame.body.length) :=
    scanStep_wire haddr hlimit hpayload ys
  have hdrop : (frame.wire ++ ys).drop frame.body.length = flag :: ys := by
    have hbody : frame.wire = (flag :: (frame.header ++ frame.payload ++ [frame.fcs])) ++ [flag] := by
      simp [Frame.wire, Frame.body]
    have hlen : (flag :: (frame.header ++ frame.payload ++ [frame.fcs])).length =
        frame.body.length := by simp [Frame.body]; omega
    rw [hbody, List.append_assoc, List.drop_left' hlen]
    rfl
  rw [(scanner limit).run_of_step_some hstep, hdrop]
  rfl

/-- A flag in front of a flag changes nothing. -/
theorem run_flag_flag (limit : Nat) (ys : List UInt8) :
    (scanner limit).run (flag :: flag :: ys) = (scanner limit).run (flag :: ys) := by
  have hstep : (scanner limit).step (flag :: flag :: ys) = some ([], 1) := by
    simp [scanner, scanStep, afterFlag]
  rw [(scanner limit).run_of_step_some hstep]
  rfl

/-- The frames of a stream: those that `encode` accepts under `limit`, with an
address that is no flag. -/
def Sendable (limit : Nat) (frame : Frame) : Prop :=
  frame.address ≠ flag ∧ frame.payload.length ≤ limit

theorem run_flag (limit : Nat) : (scanner limit).run [flag] = ([], [flag]) :=
  (scanner limit).run_of_step_none rfl

theorem run_flag_frames {limit : Nat} (hlimit : ValidLimit limit) {fs : List Frame}
    (h : ∀ f ∈ fs, Sendable limit f) :
    (scanner limit).run (flag :: fs.flatMap Frame.wire) = (fs.map .frame, [flag]) := by
  induction fs with
  | nil => exact run_flag limit
  | cons f fs ih =>
      obtain ⟨haddr, hpayload⟩ := h f (List.mem_cons_self ..)
      have hfs := ih fun g hg => h g (List.mem_cons_of_mem _ hg)
      rw [List.flatMap_cons, Frame.wire, List.cons_append, run_flag_flag, ← List.cons_append,
        ← Frame.wire, run_wire_append haddr hlimit hpayload, hfs]
      rfl

theorem run_flag_bodies {limit : Nat} (hlimit : ValidLimit limit) {fs : List Frame}
    (h : ∀ f ∈ fs, Sendable limit f) :
    (scanner limit).run (flag :: fs.flatMap Frame.body) = (fs.map .frame, [flag]) := by
  induction fs with
  | nil => exact run_flag limit
  | cons f fs ih =>
      obtain ⟨haddr, hpayload⟩ := h f (List.mem_cons_self ..)
      have hfs := ih fun g hg => h g (List.mem_cons_of_mem _ hg)
      rw [List.flatMap_cons, ← List.cons_append, ← Frame.wire,
        run_wire_append haddr hlimit hpayload, hfs]
      rfl

/-- **Round trip of a list of frames**, each with its own two flags. -/
theorem run_frames {limit : Nat} (hlimit : ValidLimit limit) {fs : List Frame}
    (h : ∀ f ∈ fs, Sendable limit f) :
    ((scanner limit).run (fs.flatMap Frame.wire)).1 = fs.map .frame := by
  cases fs with
  | nil => rfl
  | cons f fs =>
      obtain ⟨haddr, hpayload⟩ := h f (List.mem_cons_self ..)
      rw [List.flatMap_cons, run_wire_append haddr hlimit hpayload,
        run_flag_frames hlimit fun g hg => h g (List.mem_cons_of_mem _ hg)]
      rfl

/-- **Round trip with shared flags**: each frame opens with the closing flag of
the one before. -/
theorem run_shared_frames {limit : Nat} (hlimit : ValidLimit limit) {f : Frame} {fs : List Frame}
    (h : ∀ g ∈ f :: fs, Sendable limit g) :
    ((scanner limit).run (f.wire ++ fs.flatMap Frame.body)).1 = (f :: fs).map .frame := by
  obtain ⟨haddr, hpayload⟩ := h f (List.mem_cons_self ..)
  rw [run_wire_append haddr hlimit hpayload,
    run_flag_bodies hlimit fun g hg => h g (List.mem_cons_of_mem _ hg)]
  rfl

/-! ### Where frames are accepted -/

/-- A frame the scanner accepted: the place of its opening flag, the distance
to its closing flag, and the frame. -/
structure Accepted where
  place : Nat
  size : Nat
  frame : Frame

/-- The frames the scanner accepts in a stream, with their places. -/
def accepted (limit : Nat) (stream : List UInt8) : List Accepted :=
  ((scanner limit).trace stream).flatMap fun e =>
    (frames e.out).map fun frame => ⟨e.place, e.size, frame⟩

theorem accepted_map_frame (limit : Nat) (stream : List UInt8) :
    (accepted limit stream).map Accepted.frame = frames ((scanner limit).run stream).1 := by
  rw [← (scanner limit).trace_flatMap_out stream]
  unfold accepted
  induction (scanner limit).trace stream with
  | nil => rfl
  | cons e es ih =>
      rw [List.flatMap_cons, List.map_append, ih, List.flatMap_cons, frames_append, List.map_map]
      congr 1
      exact List.map_id' (frames e.out)

/-- A step over more than one byte accepts a frame. -/
theorem takeCandidate_jump {limit : Nat} {address control : UInt8} {size : Nat}
    {header rest : List UInt8} {out : List Token} {n : Nat}
    (h : takeCandidate limit address control size header rest = some (out, n)) (hn : 1 < n) :
    ∃ frame, out = [.frame frame] := by
  unfold takeCandidate at h
  split_ifs at h <;> cases h <;> first | omega | exact ⟨_, rfl⟩

theorem scanStep_jump {limit : Nat} {xs : List UInt8} {out : List Token} {n : Nat}
    (h : scanStep limit xs = some (out, n)) (hn : 1 < n) : ∃ frame, out = [.frame frame] := by
  cases xs with
  | nil => cases h
  | cons byte rest =>
      simp only [scanStep] at h
      split at h
      · cases rest with
        | nil => cases h
        | cons address rest =>
            simp only [afterFlag] at h
            split at h
            · cases h
              omega
            · split at h
              · obtain ⟨⟨size, header, rest'⟩, -, htake⟩ := Option.bind_eq_some_iff.mp h
                exact takeCandidate_jump htake hn
              · cases h
      · cases h
        omega

/-- **No valid frame is missed.** A frame on the wire is accepted at its place,
unless its opening flag lies inside an accepted frame or behind the flag of a
candidate that is still incomplete at the end of the stream. -/
theorem accepted_or_overlapped {limit : Nat} (hlimit : ValidLimit limit) {frame : Frame}
    (hframe : Sendable limit frame) (before after : List UInt8) :
    let stream := before ++ frame.wire ++ after
    let rest := ((scanner limit).run stream).2
    (∃ e ∈ accepted limit stream, e.place = before.length ∧ e.frame = frame) ∨
    (∃ e ∈ accepted limit stream, e.place < before.length ∧ before.length < e.place + e.size) ∨
    (rest.head? = some flag ∧ stream.length - rest.length < before.length) := by
  intro stream rest
  have hdrop : stream.drop before.length = frame.wire ++ after := by
    simp [stream, List.append_assoc]
  have hwire : (scanner limit).step (frame.wire ++ after) =
      some ([.frame frame], frame.body.length) :=
    scanStep_wire hframe.1 hlimit hframe.2 after
  have hlen : before.length < stream.length := by simp [stream, Frame.wire]
  rcases (scanner limit).position_cases stream (Nat.le_of_lt hlen) with
    ⟨e, he, hplace⟩ | ⟨e, he, hlt, hin⟩ | hwait
  · -- the scanner stops at the frame, where its step accepts it
    left
    have hstep := (scanner limit).trace_step he
    rw [hplace, hdrop, hwire] at hstep
    have hout : e.out = [.frame frame] := by
      have := congrArg (Option.map Prod.fst) hstep
      simpa using this.symm
    refine ⟨⟨e.place, e.size, frame⟩, ?_, hplace, rfl⟩
    refine List.mem_flatMap.mpr ⟨e, he, ?_⟩
    rw [hout]
    simp [frames, Token.frame?]
  · right; left
    obtain ⟨other, hout⟩ := scanStep_jump ((scanner limit).trace_step he) (by omega)
    refine ⟨⟨e.place, e.size, other⟩, ?_, hlt, hin⟩
    refine List.mem_flatMap.mpr ⟨e, he, ?_⟩
    rw [hout]
    simp [frames, Token.frame?]
  · right; right
    obtain ⟨read, hread⟩ : rest <:+ stream := (scanner limit).run_rest_suffix stream
    have hlens : read.length + rest.length = stream.length := by
      rw [← hread, List.length_append]
    have hreadlen : stream.length - rest.length = read.length := by omega
    have hwait : stream.length - rest.length ≤ before.length := hwait
    have hnone : (scanner limit).step rest = none := (scanner limit).step_run_rest stream
    refine ⟨?_, ?_⟩
    · cases hrest : rest with
      | nil =>
          rw [hrest, List.length_nil] at hlens
          omega
      | cons byte bytes =>
          rw [hrest] at hnone
          rw [List.head?_cons, scanStep_none_head hnone]
    · rw [hreadlen] at hwait ⊢
      -- waiting at the frame itself would contradict its acceptance
      refine Nat.lt_of_le_of_ne hwait fun heq => ?_
      have hrest : rest = frame.wire ++ after := by
        rw [← hdrop, ← heq, ← hread]
        simp [rest]
      rw [hrest, hwire] at hnone
      cases hnone

/-- The address `Frame.command` builds is never the flag. -/
theorem command_address_ne_flag {channel control : UInt8} {payload : List UInt8} {frame : Frame}
    (h : Frame.command channel control payload = .ok frame) : frame.address ≠ flag := by
  have key : ∀ c : UInt8, c <<< 2 ||| 3 ≠ flag := by decide +kernel
  unfold Frame.command at h
  split at h
  · cases h
  · cases h
    exact key channel

end Mindone.Mux
