import Mindone.Mux.Transport

/-!
# Mindone.Mux.Receiver

`Receiver` of `modem/mux/transport.rs`: it reads a device into a decoder and hands the
frames to a sink, within a turn budget. A candidate that is still incomplete has at most
`limit + 6` bytes, so a decoder that has no frame left always has room (`Settled`), and a
receiver never finds itself with nothing to offer.
-/

namespace Mindone.Mux

open Mindone.Lib

/-! ### What an incomplete frame leaves in the decoder -/

/-- An incomplete frame is shorter than the longest one. -/
theorem judge_incomplete_le {buffer : List UInt8} {length limit index : Nat}
    (h : judge buffer length limit index = .incomplete) : length - index ≤ limit + 6 := by
  unfold judge at h
  split at h
  · omega
  · split at h
    · rename_i hfield
      unfold sizeField at hfield
      dsimp only at hfield
      split at hfield
      · split at hfield
        · omega
        · cases hfield
      · cases hfield
    · rename_i size headerLength hfield
      have hheader : headerLength ≤ 4 := by
        unfold sizeField at hfield
        dsimp only at hfield
        split at hfield
        · split at hfield
          · cases hfield
          · cases hfield
            omega
        · cases hfield
          omega
      split at h
      · cases h
      · simp only [judgeBody] at h
        split at h
        · omega
        · split_ifs at h

theorem scanLoop_none_le {buffer : List UInt8} {length limit index : Nat} {stats : DecodeStats}
    (h : (scanLoop buffer length limit index stats).frame = none) :
    length - (scanLoop buffer length limit index stats).consumed ≤ limit + 6 := by
  fun_induction scanLoop buffer length limit index stats with
  | case1 index stats skipped here seen hj => exact judge_incomplete_le hj
  | case5 index stats skipped here seen frame closing hj => cases h
  | case2 index stats skipped here seen hj ih
  | case3 index stats skipped here seen hj ih
  | case4 index stats skipped here seen hj ih => exact ih h

namespace Decoder

variable {capacity : Nat}

/-- The decoder holds at most the beginning of one frame. -/
def Settled (d : Decoder capacity) : Prop := d.buffered.length ≤ d.limit + 6

theorem nextFrame_settled {d d' : Decoder capacity} (h : d.nextFrame = (none, d')) :
    d'.Settled := by
  have hframe : (scanLoop d.buffer d.length d.limit d.consumed d.stats).frame = none :=
    congrArg Prod.fst h
  obtain rfl : d.nextFrame.2 = d' := congrArg Prod.snd h
  rw [Settled, buffered_length]
  exact scanLoop_none_le hframe

/-- **A settled decoder has room.** -/
theorem Settled.available {d : Decoder capacity} (h : d.Settled) : 1 ≤ d.availableCapacity := by
  have hfits := d.limit_fits
  unfold Settled at h
  unfold availableCapacity
  simp only [maxOverhead] at hfits
  omega

theorem push_isOk {d : Decoder capacity} {bytes : List UInt8}
    (h : bytes.length ≤ d.availableCapacity) : ∃ d', d.push bytes = .ok d' := by
  unfold push
  rw [dif_neg (Nat.not_lt.mpr h)]
  exact ⟨_, rfl⟩

theorem settled_of_buffered {d : Decoder capacity} (h : d.buffered = []) : d.Settled := by
  rw [Settled, h, List.length_nil]
  exact Nat.zero_le _

theorem reset_buffered (d : Decoder capacity) : d.reset.2.buffered = [] := slice_self _ _

theorem new_buffered {limit : Nat} {d : Decoder capacity} (h : new limit = .ok d) :
    d.buffered = [] := by
  unfold new at h
  split at h
  · split at h
    · cases h
      exact slice_self _ _
    · cases h
  · cases h

end Decoder

namespace Transport

/-! ### The receiver -/

/-- `trait ByteReader`: a read fills the front of the buffer it is given. -/
abbrev ByteReader (ω : Type) := Nat → ω → (IoResult × List UInt8) × ω

/-- `trait FrameSink`. -/
abbrev FrameSink (ω : Type) := Frame → ω → Bool × ω

structure Receiver where
  decoder : Decoder rxBytes

/-- Where a loop of the receiver stopped. -/
structure Received (ω : Type) where
  stop : Stop
  decoder : Decoder rxBytes
  world : ω
  budget : TurnBudget
  frames : Nat

section Read

variable {ω : Type}

/-- `while let Some(frame) = self.decoder.next_frame()`: whether the sink accepted all of
them. -/
def sinkFrames (sink : FrameSink ω) (d : Decoder rxBytes) (w : ω) (frames : Nat) :
    Bool × Decoder rxBytes × ω × Nat :=
  match _h : d.nextFrame with
  | (none, d') => (true, d', w, frames)
  | (some frame, d') =>
      match sink frame w with
      | (false, w) => (false, d', w, frames)
      | (true, w) => sinkFrames sink d' w (frames + 1)
termination_by d.length - d.consumed
decreasing_by exact Decoder.nextFrame_lt _h

/-- The loop of `read_turn`. -/
def readLoop (reader : ByteReader ω) (sink : FrameSink ω) (d : Decoder rxBytes)
    (scratch : List UInt8) (w : ω) (budget : TurnBudget) (frames : Nat) : Received ω :=
  match _hcall : budget.takeCall with
  | none => ⟨.yielded, d, w, budget, frames⟩
  | some budget' =>
      let offered := min (min scratch.length d.availableCapacity) budget'.availableBytes
      if offered = 0 then ⟨.invalidBuffer, d, w, budget', frames⟩
      else
        match reader offered w with
        | ((result, data), w) =>
            let scratch := blit scratch 0 (data.take offered)
            match result with
            | .transferred bytes =>
                if bytes = 0 then ⟨.endOfStream, d, w, budget', frames⟩
                else if hle : bytes > offered then ⟨.invalidProgress, d, w, budget', frames⟩
                else
                  let spent := budget'.spend bytes
                    (Nat.le_trans (Nat.le_of_not_lt hle) (Nat.min_le_right _ _))
                  match d.push (scratch.take bytes) with
                  | .error _ => ⟨.invalidProgress, d, w, spent, frames⟩
                  | .ok d =>
                      match sinkFrames sink d w frames with
                      | (false, d, w, frames) => ⟨.rejected, d, w, spent, frames⟩
                      | (true, d, w, frames) => readLoop reader sink d scratch w spent frames
            | .fault .endOfStream => ⟨.endOfStream, d, w, budget', frames⟩
            | .fault .interrupted => readLoop reader sink d scratch w budget' frames
            | .fault .wouldBlock | .fault .busy => ⟨.blocked, d, w, budget', frames⟩
            | .fault .deviceReset => ⟨.deviceReset, d, w, budget', frames⟩
            | .fault .failure => ⟨.failure, d, w, budget', frames⟩
termination_by budget.callLimit - budget.calls
decreasing_by
  · show budget'.callLimit - budget'.calls < budget.callLimit - budget.calls
    exact TurnBudget.takeCall_lt _hcall
  · exact TurnBudget.takeCall_lt _hcall

end Read

namespace Receiver

def new (frameLimit : Nat) : Except Error Receiver :=
  match Decoder.new frameLimit with
  | .error _ => .error .configuration
  | .ok decoder => .ok ⟨decoder⟩

def pending (r : Receiver) : List UInt8 := r.decoder.buffered

def reset (r : Receiver) : Nat × Receiver := (r.decoder.reset.1, ⟨r.decoder.reset.2⟩)

/-- `read_turn`: anything but a pause resets the decoder. -/
def readTurn {ω : Type} (r : Receiver) (reader : ByteReader ω) (sink : FrameSink ω)
    (scratch : List UInt8) (w : ω) (budget : TurnBudget) :
    TurnReport × Receiver × ω × TurnBudget :=
  if scratch = [] ∨ scratch.length > rxBytes then
    (⟨.invalidBuffer, budget.calls - budget.calls, budget.bytes - budget.bytes, r.pending.length,
      0, 0⟩, r, w, budget)
  else
    let read := readLoop reader sink r.decoder scratch w budget 0
    let after : Nat × Receiver :=
      if read.stop = .yielded ∨ read.stop = .blocked then (0, ⟨read.decoder⟩)
      else Receiver.reset ⟨read.decoder⟩
    (⟨read.stop, read.budget.calls - budget.calls, read.budget.bytes - budget.bytes,
      after.2.pending.length, after.1, read.frames⟩, after.2, read.world, read.budget)

end Receiver

/-! ### A receiver always has room -/

section Room

variable {ω : Type}

theorem sinkFrames_settled (sink : FrameSink ω) (d : Decoder rxBytes) (w : ω) (frames : Nat)
    (h : (sinkFrames sink d w frames).1 = true) : (sinkFrames sink d w frames).2.1.Settled := by
  fun_induction sinkFrames sink d w frames with
  | case1 d w frames d' hnext => exact Decoder.nextFrame_settled hnext
  | case2 d w frames frame d' hnext w' hsink => cases h
  | case3 d w frames frame d' hnext w' hsink ih => exact ih h

theorem takeCall_available {budget budget' : TurnBudget} (h : budget.takeCall = some budget') :
    1 ≤ budget'.availableBytes := by
  unfold TurnBudget.takeCall at h
  split at h
  · cases h
  · rename_i hroom
    cases h
    have hle := budget.bytes_le
    simp only [TurnBudget.availableBytes]
    omega

/-- A read stays within the scratch buffer. -/
theorem scratch_length {scratch data : List UInt8} {n : Nat} (h : n ≤ scratch.length) :
    (blit scratch 0 (data.take n)).length = scratch.length := by
  refine blit_length ?_
  rw [List.length_take]
  omega

/-- **The loop never runs out of room**, and a pause leaves a settled decoder. -/
theorem readLoop_settled (reader : ByteReader ω) (sink : FrameSink ω) (d : Decoder rxBytes)
    (scratch : List UInt8) (w : ω) (budget : TurnBudget) (frames : Nat) (hd : d.Settled)
    (hscratch : 1 ≤ scratch.length) :
    (readLoop reader sink d scratch w budget frames).stop ≠ .invalidBuffer ∧
      ((readLoop reader sink d scratch w budget frames).stop = .yielded ∨
        (readLoop reader sink d scratch w budget frames).stop = .blocked →
        (readLoop reader sink d scratch w budget frames).decoder.Settled) := by
  fun_induction readLoop reader sink d scratch w budget frames with
  | case1 d scratch w budget frames hcall => exact ⟨by simp, fun _ => hd⟩
  | case2 d scratch w budget frames budget' hcall offered hnone =>
      have hbytes := takeCall_available hcall
      have hroom := hd.available
      omega
  | case7 d scratch w budget frames budget' hcall offered hsome data w' scratch' bytes hzero hle
      spent pushed hpush d' w'' frames' hframes hread ih =>
      have hsettled := sinkFrames_settled sink pushed w' frames (by rw [hframes])
      rw [hframes] at hsettled
      have hlength : scratch'.length = scratch.length := scratch_length (by omega)
      exact ih hsettled (by rw [hlength]; exact hscratch)
  | case9 d scratch w budget frames budget' hcall offered hsome data w' scratch' hread ih =>
      have hlength : scratch'.length = scratch.length := scratch_length (by omega)
      exact ih hd (by rw [hlength]; exact hscratch)
  | case10 | case11 => exact ⟨by simp, fun _ => hd⟩
  | _ => simp

/-- A receiver and what its owner does with it: any reader, any sink, any scratch buffer
and any budget. -/
inductive Receiver.Reachable : Receiver → Prop
  | new {frameLimit r} (h : Receiver.new frameLimit = .ok r) : Reachable r
  | reset {r} (h : Reachable r) : Reachable r.reset.2
  | readTurn {r} (h : Reachable r) {ω : Type} (reader : ByteReader ω) (sink : FrameSink ω)
      (scratch : List UInt8) (w : ω) (budget : TurnBudget) :
      Reachable (r.readTurn reader sink scratch w budget).2.1

/-- Every reachable receiver is settled. -/
theorem Receiver.Reachable.settled {r : Receiver} (h : r.Reachable) : r.decoder.Settled := by
  induction h with
  | @new frameLimit r hnew =>
      unfold Receiver.new at hnew
      split at hnew
      · cases hnew
      · rename_i hdecoder
        cases hnew
        exact Decoder.settled_of_buffered (Decoder.new_buffered hdecoder)
  | @reset r _ ih => exact Decoder.settled_of_buffered (Decoder.reset_buffered r.decoder)
  | @readTurn r _ ω reader sink scratch w budget ih =>
      unfold Receiver.readTurn
      split
      · exact ih
      · rename_i hvalid
        have hscratch : 1 ≤ scratch.length :=
          List.length_pos_iff.mpr fun hempty => hvalid (Or.inl hempty)
        have hloop := readLoop_settled reader sink r.decoder scratch w budget 0 ih hscratch
        dsimp only
        split
        · rename_i hpause
          exact hloop.2 hpause
        · exact Decoder.settled_of_buffered (Decoder.reset_buffered _)

/-- **`read_turn` never stops with `InvalidBuffer`** for a valid scratch buffer. -/
theorem Receiver.Reachable.readTurn_stop {r : Receiver} (h : r.Reachable)
    (reader : ByteReader ω) (sink : FrameSink ω) {scratch : List UInt8} (w : ω)
    (budget : TurnBudget) (hsome : scratch ≠ []) (hbytes : scratch.length ≤ rxBytes) :
    (r.readTurn reader sink scratch w budget).1.stop ≠ .invalidBuffer := by
  have hvalid : ¬ (scratch = [] ∨ scratch.length > rxBytes) := by
    rintro (hempty | hlong)
    · exact hsome hempty
    · exact Nat.not_lt.mpr hbytes hlong
  unfold Receiver.readTurn
  rw [if_neg hvalid]
  exact (readLoop_settled reader sink r.decoder scratch w budget 0 h.settled
    (List.length_pos_iff.mpr hsome)).1

end Room

end Transport

end Mindone.Mux
