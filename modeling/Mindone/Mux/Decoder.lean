import Mindone.Mux.Frame

/-!
# Mindone.Mux.Decoder

The streaming decoder of `modem/mux/lib.rs`: a fixed buffer whose live bytes
are the window `[consumed, length)`, `push` to compact it and append input, and
`next_frame` to scan for the next complete frame.

The scan loops over indices into the buffer, exactly as the source does; the
loops are written by well-founded recursion on the bytes left. What they
compute is stated over byte lists in `Mindone.Mux.Scanner`.
-/

namespace Mindone.Mux

open Mindone.Lib

structure DecodeStats where
  discardedBytes : Nat := 0
  oversizedFrames : Nat := 0
  badChecksums : Nat := 0
  missingClosingFlags : Nat := 0
  deriving DecidableEq

/-- A decoder with a buffer of `capacity` bytes. The window stays inside the
buffer, and the buffer has room for one frame of the largest size. -/
structure Decoder (capacity : Nat) where
  buffer : List UInt8
  length : Nat
  consumed : Nat
  limit : Nat
  stats : DecodeStats
  buffer_length : buffer.length = capacity
  consumed_le : consumed ≤ length
  length_le : length ≤ capacity
  limit_valid : ValidLimit limit
  limit_fits : limit + maxOverhead ≤ capacity

/-! ### The scan of `next_frame` -/

section Scan

variable (buffer : List UInt8) (length limit : Nat)

/-- `while index < self.length && self.buffer[index] != FLAG`. -/
def skipNoise (index : Nat) (stats : DecodeStats) : Nat × DecodeStats :=
  if index < length ∧ buffer.getD index 0 ≠ flag then
    skipNoise (index + 1) { stats with discardedBytes := saturatingAdd stats.discardedBytes 1 }
  else (index, stats)
termination_by length - index

/-- `while index + 1 < self.length && self.buffer[index + 1] == FLAG`. -/
def skipFlags (index : Nat) : Nat :=
  if index + 1 < length ∧ buffer.getD (index + 1) 0 = flag then skipFlags (index + 1) else index
termination_by length - index

theorem skipNoise_le (index : Nat) (stats : DecodeStats) :
    index ≤ (skipNoise buffer length index stats).1 := by
  fun_induction skipNoise buffer length index stats with
  | case1 index stats h ih => omega
  | case2 index stats h => exact Nat.le_refl _

theorem skipNoise_le_length {index : Nat} (stats : DecodeStats) (h : index ≤ length) :
    (skipNoise buffer length index stats).1 ≤ length := by
  fun_induction skipNoise buffer length index stats with
  | case1 index stats hc ih => exact ih (by omega)
  | case2 index stats hc => exact h

theorem skipFlags_le (index : Nat) : index ≤ skipFlags buffer length index := by
  fun_induction skipFlags buffer length index with
  | case1 index h ih => omega
  | case2 index h => exact Nat.le_refl _

theorem skipFlags_le_length {index : Nat} (h : index ≤ length) :
    skipFlags buffer length index ≤ length := by
  fun_induction skipFlags buffer length index with
  | case1 index hc ih => exact ih (by omega)
  | case2 index hc => exact h

/-- What one scan returns: the frame, the new `consumed` and the counters. -/
structure ScanResult where
  frame : Option Frame
  consumed : Nat
  stats : DecodeStats

/-- The candidate that starts behind the flag at `index`. -/
inductive Verdict
  /-- Not all of its bytes have arrived. -/
  | incomplete
  | oversized
  | badChecksum
  | missingClosingFlag
  /-- A frame whose closing flag is at `closing`. -/
  | accepted (frame : Frame) (closing : Nat)
  deriving DecidableEq

/-- The length field behind the flag before `start`: the payload size and the
header length, or `none` while the second length byte is missing. -/
def sizeField (start : Nat) : Option (Nat × Nat) :=
  let first := buffer.getD (start + 2) 0
  if first &&& 1 = 0 then
    if length - start < 4 then none
    else some ((first >>> 1).toNat ||| (buffer.getD (start + 3) 0).toNat <<< 7, 4)
  else some ((first >>> 1).toNat, 3)

/-- The checks behind the length field, for a size within the limit. -/
def judgeBody (start size headerLength : Nat) : Verdict :=
  let control := buffer.getD (start + 1) 0
  let payloadStart := start + headerLength
  let checksum := payloadStart + size
  let closing := checksum + 1
  if closing ≥ length then .incomplete
  else
    let payload := slice buffer payloadStart checksum
    let crc := frameCrc control (slice buffer start payloadStart) payload
    if crc ^^^ buffer.getD checksum 0 ≠ 0xff then .badChecksum
    else if buffer.getD closing 0 ≠ flag then .missingClosingFlag
    else .accepted { address := buffer.getD start 0, control, payload } closing

/-- The body of the scan loop behind the two skips. -/
def judge (index : Nat) : Verdict :=
  if length - index < 4 then .incomplete
  else
    match sizeField buffer length (index + 1) with
    | none => .incomplete
    | some (size, headerLength) =>
        if size > limit then .oversized
        else judgeBody buffer length (index + 1) size headerLength

theorem judge_of_short {index : Nat} (h : length - index < 4) :
    judge buffer length limit index = .incomplete := by
  simp [judge, h]

/-- The outer loop of `next_frame`, entered at `index`. -/
def scanLoop (index : Nat) (stats : DecodeStats) : ScanResult :=
  let skipped := skipNoise buffer length index stats
  let here := skipFlags buffer length skipped.1
  let seen := skipped.2
  match h : judge buffer length limit here with
  | .incomplete => ⟨none, here, seen⟩
  | .oversized =>
      scanLoop (here + 1) { seen with oversizedFrames := saturatingAdd seen.oversizedFrames 1 }
  | .badChecksum =>
      scanLoop (here + 1) { seen with badChecksums := saturatingAdd seen.badChecksums 1 }
  | .missingClosingFlag =>
      scanLoop (here + 1)
        { seen with missingClosingFlags := saturatingAdd seen.missingClosingFlags 1 }
  | .accepted frame closing => ⟨some frame, closing, seen⟩
termination_by length - index
decreasing_by
  all_goals
    -- a candidate that is judged at all has four bytes behind `here`
    have hlong : ¬ length - here < 4 := fun hs => by
      rw [judge_of_short buffer length limit hs] at h
      cases h
    have hnoise := skipNoise_le buffer length index stats
    have hflags := skipFlags_le buffer length (skipNoise buffer length index stats).1
    have hlong' : ¬ length - skipFlags buffer length (skipNoise buffer length index stats).1 < 4 :=
      hlong
    omega

theorem judgeBody_accepted_lt {start size headerLength closing : Nat} {frame : Frame}
    (h : judgeBody buffer length start size headerLength = .accepted frame closing) :
    start ≤ closing ∧ closing < length := by
  simp only [judgeBody] at h
  split at h
  · cases h
  · split_ifs at h with hshort
    all_goals cases h
    omega

theorem judge_accepted_lt {index closing : Nat} {frame : Frame}
    (h : judge buffer length limit index = .accepted frame closing) :
    index < closing ∧ closing < length := by
  unfold judge at h
  split at h
  · cases h
  · split at h
    · cases h
    · split at h
      · cases h
      · have := judgeBody_accepted_lt _ _ h
        omega

theorem scanLoop_consumed_le {index : Nat} (stats : DecodeStats) (h : index ≤ length) :
    (scanLoop buffer length limit index stats).consumed ≤ length := by
  fun_induction scanLoop buffer length limit index stats with
  | case1 index stats skipped here seen hj =>
      exact skipFlags_le_length _ _ (skipNoise_le_length _ _ _ h)
  | case5 index stats skipped here seen frame closing hj =>
      exact Nat.le_of_lt (judge_accepted_lt _ _ _ hj).2
  | case2 index stats skipped here seen hj ih
  | case3 index stats skipped here seen hj ih
  | case4 index stats skipped here seen hj ih =>
      refine ih (Nat.lt_of_not_le fun hge => ?_)
      rw [judge_of_short buffer length limit (by omega)] at hj
      cases hj

/-- A frame moves the scan behind its opening flag. -/
theorem scanLoop_some_lt {index : Nat} {stats : DecodeStats} {frame : Frame}
    (h : (scanLoop buffer length limit index stats).frame = some frame) :
    index < (scanLoop buffer length limit index stats).consumed := by
  fun_induction scanLoop buffer length limit index stats with
  | case1 index stats skipped here seen hj => cases h
  | case5 index stats skipped here seen frame closing hj =>
      have hnoise := skipNoise_le buffer length index stats
      have hflags : skipped.1 ≤ here := skipFlags_le buffer length _
      exact Nat.lt_of_le_of_lt (Nat.le_trans hnoise hflags) (judge_accepted_lt _ _ _ hj).1
  | case2 index stats skipped here seen hj ih
  | case3 index stats skipped here seen hj ih
  | case4 index stats skipped here seen hj ih =>
      have hnoise := skipNoise_le buffer length index stats
      have hflags : skipped.1 ≤ here := skipFlags_le buffer length _
      exact Nat.lt_of_le_of_lt (Nat.le_trans hnoise (Nat.le_trans hflags (Nat.le_succ _))) (ih h)

end Scan

/-! ### The decoder -/

namespace Decoder

variable {capacity : Nat}

def new (limit : Nat) : Except FramingError (Decoder capacity) :=
  if hlimit : ValidLimit limit then
    if hfits : limit + maxOverhead ≤ capacity then
      .ok {
        buffer := List.replicate capacity 0
        length := 0
        consumed := 0
        limit
        stats := {}
        buffer_length := List.length_replicate
        consumed_le := Nat.le_refl _
        length_le := Nat.zero_le _
        limit_valid := hlimit
        limit_fits := hfits }
    else .error .insufficientCapacity
  else .error .invalidLimit

def buffered (d : Decoder capacity) : List UInt8 := slice d.buffer d.consumed d.length

def availableCapacity (d : Decoder capacity) : Nat := capacity - d.buffered.length

theorem buffered_length (d : Decoder capacity) : d.buffered.length = d.length - d.consumed :=
  slice_length (by rw [d.buffer_length]; exact d.length_le)

/-- Drop the buffered bytes; also returns how many they were. -/
def reset (d : Decoder capacity) : Nat × Decoder capacity :=
  (d.buffered.length,
    { d with length := 0, consumed := 0, consumed_le := Nat.le_refl _, length_le := Nat.zero_le _ })

/-- Compact the buffer and append `bytes`. -/
def push (d : Decoder capacity) (bytes : List UInt8) : Except FramingError (Decoder capacity) :=
  if h : bytes.length > d.availableCapacity then .error .insufficientCapacity
  else
    have hwindow := d.buffered_length
    have hlength := d.length_le
    have hbuffer := d.buffer_length
    have hconsumed := d.consumed_le
    have hroom : d.length - d.consumed + bytes.length ≤ capacity := by
      simp only [availableCapacity] at h
      omega
    .ok { d with
      buffer := blit (copyToFront d.buffer d.consumed d.length) (d.length - d.consumed) bytes
      length := d.length - d.consumed + bytes.length
      consumed := 0
      buffer_length := by
        have hmoved := copyToFront_length hconsumed (by omega : d.length ≤ d.buffer.length)
        rw [blit_length (by omega), hmoved, hbuffer]
      consumed_le := Nat.zero_le _
      length_le := hroom }

/-- Scan for the next complete frame. -/
def nextFrame (d : Decoder capacity) : Option Frame × Decoder capacity :=
  let r := scanLoop d.buffer d.length d.limit d.consumed d.stats
  (r.frame,
    { d with
      consumed := r.consumed
      stats := r.stats
      consumed_le := scanLoop_consumed_le _ _ _ _ d.consumed_le })

/-- A frame leaves fewer bytes to scan. -/
theorem nextFrame_lt {d d' : Decoder capacity} {frame : Frame}
    (h : d.nextFrame = (some frame, d')) : d'.length - d'.consumed < d.length - d.consumed := by
  have hframe : (scanLoop d.buffer d.length d.limit d.consumed d.stats).frame = some frame :=
    congrArg Prod.fst h
  have hlt := scanLoop_some_lt _ _ _ hframe
  have hle := scanLoop_consumed_le d.buffer d.length d.limit d.stats d.consumed_le
  obtain rfl : d.nextFrame.2 = d' := congrArg Prod.snd h
  simp only [nextFrame]
  omega

/-- Call `next_frame` until it returns `None`. -/
def drain (d : Decoder capacity) : List Frame × Decoder capacity :=
  match _h : d.nextFrame with
  | (none, d') => ([], d')
  | (some frame, d') =>
      let r := d'.drain
      (frame :: r.1, r.2)
termination_by d.length - d.consumed
decreasing_by exact nextFrame_lt _h

/-- Push one chunk after the other, draining after each push. Fails at the
first chunk that does not fit. -/
def feed (d : Decoder capacity) :
    List (List UInt8) → Except FramingError (List Frame × Decoder capacity)
  | [] => .ok ([], d)
  | chunk :: chunks => do
      let d ← d.push chunk
      let r := d.drain
      let rest ← r.2.feed chunks
      return (r.1 ++ rest.1, rest.2)

end Decoder

end Mindone.Mux
