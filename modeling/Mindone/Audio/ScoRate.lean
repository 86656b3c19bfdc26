import Mathlib.Data.Int.Init
import Mathlib.Algebra.Ring.Nat
import Mathlib.Algebra.Ring.Int.Defs

/-!
# Mindone.Audio.ScoRate

The **rate conversion of a Bluetooth call**: the streams run at their own rate, the SCO device at
8000 or 16000 frames a second. Playback adds up `ratio` down-mixed frames and stages their mean; the
staged samples leave in packets of 30. Capture draws a line from each sample of the device to the
next. What the C code leaves undefined is a `Trap`: an `int32_t` or `int16_t` that does not hold its
value, an index behind its buffer.

The PCM device is what it answers: how many frames it takes of what it is offered, or an error, and
whether it can be prepared again after one.
-/

namespace Mindone.Audio.Sco

inductive Trap
  | overflow
  | index
  deriving DecidableEq

/-- A value that an `int32_t` has to hold. -/
def int32 (x : Int) : Except Trap Int :=
  if -2 ^ 31 ≤ x ∧ x < 2 ^ 31 then .ok x else .error .overflow

/-- A value that an `int16_t` has to hold. -/
def int16 (x : Int) : Except Trap Int16 :=
  if -2 ^ 15 ≤ x ∧ x < 2 ^ 15 then .ok (Int16.ofInt x) else .error .overflow

/-- An unsigned number cast to `int32_t`. -/
def castInt32 (n : Nat) : Int := (n : Int).bmod (2 ^ 32)

def einval : Int := -22
def enomem : Int := -12
def eio : Int := -5
def intMax : Nat := 2 ^ 31 - 1
def sizeMax : Nat := 2 ^ 64 - 1
def scoPcmPacketFrames : Nat := 30

/-! ### The transfer to and from the device -/

/-- The answer of the device to one offer: what `pcm_writei` or `pcm_readi` returns, and what
`pcm_prepare` would return after it. -/
structure Answer where
  rc : Int
  prepare : Int
  deriving DecidableEq

/-- The loop of `pcm_transfer_frames`: the return code and how many frames went over. An offer that
the list has no answer for is taken as a whole. -/
def transferLoop (input : Bool) : List Answer → Bool → Nat → Int × Nat
  | _, _, 0 => (0, 0)
  | [], _, frames + 1 => (0, frames + 1)
  | answer :: answers, recovered, frames + 1 =>
      let count := if frames + 1 > intMax then intMax else frames + 1
      if answer.rc < 0 then
        if !input && !recovered && answer.prepare == 0 then
          transferLoop input answers true (frames + 1)
        else (answer.rc, 0)
      else if answer.rc = 0 ∨ answer.rc.toNat > count then (eio, 0)
      else
        let rest := transferLoop input answers recovered (frames + 1 - answer.rc.toNat)
        (rest.1, answer.rc.toNat + rest.2)

def pcmTransferFrames (input : Bool) (answers : List Answer) (frames frameSize : Nat) :
    Int × Nat :=
  if frameSize = 0 ∨ frames > sizeMax / frameSize then (einval, 0)
  else transferLoop input answers false frames

/-! ### Playback -/

/-- A frame of the stream: one sample, or two of which the mean is taken. -/
structure Frame where
  left : Int16
  right : Option Int16
  deriving DecidableEq

/-- The fields of `mindone_stream_out` that the conversion works on; `sco_buf` is as long as
`sco_buf_frames`, of which the staged samples are the front. -/
structure Out where
  /-- `config.rate / hw_config.rate`. -/
  ratio : Nat
  scoStaged : List Int16
  scoBufFrames : Nat
  scoAcc : Int
  scoAccN : Nat
  deriving DecidableEq

/-- A stream that was just opened at a ratio. -/
def opened (ratio : Nat) : Out := ⟨ratio, [], 0, 0, 0⟩

/-- The sample `sco_buf[sco_staged++]`. -/
def Out.put (out : Out) (sample : Int16) : Except Trap Out :=
  if out.scoStaged.length < out.scoBufFrames then
    .ok { out with scoStaged := out.scoStaged ++ [sample] }
  else .error .index

/-- The down-mix of a frame. -/
def mono (frame : Frame) : Except Trap Int :=
  match frame.right with
  | none => .ok frame.left.toInt
  | some right => (int32 (frame.left.toInt + right.toInt)).map (Int.tdiv · 2)

/-- One turn of the loop of `sco_out_convert`. -/
def convertFrame (out : Out) (frame : Frame) : Except Trap Out := do
  let m ← mono frame
  let acc ← int32 (out.scoAcc + m)
  if out.scoAccN + 1 = out.ratio then
    let sample ← int16 (acc.tdiv (castInt32 out.ratio))
    let out ← out.put sample
    return { out with scoAcc := 0, scoAccN := 0 }
  else return { out with scoAcc := acc, scoAccN := out.scoAccN + 1 }

/-- `realloc` of the buffer, which may be refused. -/
def Out.grow (out : Out) (need : Nat) (alloc : Bool) : Option Out :=
  if out.scoBufFrames < need then
    if alloc then some { out with scoBufFrames := need } else none
  else some out

def scoOutConvert (out : Out) (frames : List Frame) (alloc : Bool) : Except Trap (Int × Out) :=
  let need := out.scoStaged.length + frames.length / out.ratio + 1
  match out.grow need alloc with
  | none => .ok (enomem, out)
  | some grown => do
      let out ← frames.foldlM convertFrame grown
      return (castInt32 out.scoStaged.length, out)

/-- What a call left behind: its return code, the stream, and the samples the device took. -/
structure Result where
  rc : Int
  out : Out
  sent : List Int16
  deriving DecidableEq

def scoOutFlush (out : Out) (answers : List Answer) : Result :=
  let whole := out.scoStaged.length / scoPcmPacketFrames * scoPcmPacketFrames
  if whole = 0 then ⟨0, out, []⟩
  else
    let (rc, moved) := pcmTransferFrames false answers whole 2
    if rc ≠ 0 then ⟨rc, out, out.scoStaged.take moved⟩
    else ⟨0, { out with scoStaged := out.scoStaged.drop whole }, out.scoStaged.take moved⟩

/-- A buffer that is written: its frames, the volume when it is not full (what it makes of a frame),
whether its two allocations succeed, and the answers of the device. -/
structure Buffer where
  frames : List Frame
  volume : Option (Frame → Frame)
  dspAlloc : Bool
  alloc : Bool
  answers : List Answer

/-- The frames that reach the conversion. -/
def Buffer.played (buffer : Buffer) : List Frame :=
  match buffer.volume with
  | none => buffer.frames
  | some volume => buffer.frames.map volume

/-- `out_write` on a stream that is routed to the SCO device. -/
def outWrite (out : Out) (buffer : Buffer) : Except Trap Result :=
  if buffer.frames = [] then .ok ⟨0, out, []⟩
  else if buffer.volume.isSome && !buffer.dspAlloc then .ok ⟨enomem, out, []⟩
  else do
    let (ret, out) ← scoOutConvert out buffer.played buffer.alloc
    if 0 ≤ ret then return scoOutFlush out buffer.answers
    else return ⟨ret, out, []⟩

/-- The last sample of a drain, of the frames that do not fill a group. -/
def Out.putRest (out : Out) : Except Trap Out :=
  if out.scoAccN = 0 then .ok out
  else do
    let sample ← int16 (out.scoAcc.tdiv (castInt32 out.scoAccN))
    out.put sample

/-- `out_aidl_tail` on a stream that is routed to the SCO device. -/
def outAidlTail (out : Out) (alloc : Bool) (answers : List Answer) : Except Trap Result :=
  if out.scoStaged = [] ∧ out.scoAccN = 0 then .ok ⟨0, out, []⟩
  else
    let count := out.scoStaged.length + if out.scoAccN = 0 then 0 else 1
    let padded := (count + scoPcmPacketFrames - 1) / scoPcmPacketFrames * scoPcmPacketFrames
    match out.grow padded alloc with
    | none => .ok ⟨enomem, out, []⟩
    | some grown => do
        let out ← grown.putRest
        let zeros := List.replicate (padded - out.scoStaged.length) 0
        return scoOutFlush
          { out with scoStaged := out.scoStaged ++ zeros, scoAcc := 0, scoAccN := 0 } answers

/-- What is done with a stream. -/
inductive Op
  | write (buffer : Buffer)
  /-- A drain. -/
  | tail (alloc : Bool) (answers : List Answer)
  /-- A flush, or a pause for which the device is stopped: what is staged is given up. -/
  | stop
  /-- Standby, after which the stream is opened at a ratio. -/
  | reopen (ratio : Nat)

def Out.discard (out : Out) : Out := { out with scoStaged := [], scoAcc := 0, scoAccN := 0 }

def Op.apply (out : Out) : Op → Except Trap Result
  | .write buffer => outWrite out buffer
  | .tail alloc answers => outAidlTail out alloc answers
  | .stop => .ok ⟨0, out.discard, []⟩
  | .reopen ratio => .ok ⟨0, { out.discard with ratio := ratio }, []⟩

/-! ### Capture -/

/-- The fields of `mindone_stream_in` that the conversion works on. -/
structure In where
  rate : Nat
  hwRate : Nat
  scoInFrames : Nat
  scoLast : Int16
  deriving DecidableEq

/-- A read: how many frames are asked for, whether the buffer can be grown, what the device
answers, and the samples it has. -/
structure Read where
  frames : Nat
  alloc : Bool
  answers : List Answer
  data : Nat → Int16

/-- `sco_in_buf[k]`. -/
def sampleOf (buf : List Int16) (k : Nat) : Except Trap Int16 :=
  match buf[k]? with
  | some sample => .ok sample
  | none => .error .index

/-- The sample before `sco_in_buf[k]`. -/
def prevOf (last : Int16) (buf : List Int16) (k : Nat) : Except Trap Int16 :=
  if k = 0 then .ok last else sampleOf buf (k - 1)

/-- The point behind `turn` others on the way from a sample to the next. -/
def point (ratio turn : Nat) (prev cur : Int) : Except Trap Int16 := do
  let step := castInt32 turn + 1
  let rise ← int32 (cur - prev)
  let product ← int32 (rise * step)
  let value ← int32 (prev + product.tdiv (castInt32 ratio))
  int16 value

/-- `dst[i]` of `in_read`. -/
def interpolate (ratio : Nat) (last : Int16) (buf : List Int16) (i : Nat) : Except Trap Int16 := do
  let prev ← prevOf last buf (i / ratio)
  let cur ← sampleOf buf (i / ratio)
  point ratio (i % ratio) prev.toInt cur.toInt

/-- The return code of a read, or `none` when it delivers its frames, with the stream, the samples
it took over and what it delivered. -/
structure ReadResult where
  error : Option Int
  stream : In
  source : List Int16
  delivered : List Int16
  deriving DecidableEq

/-- `in_read` on a stream that is routed to the SCO device. -/
def inRead (stream : In) (read : Read) : Except Trap ReadResult :=
  let ratio := stream.rate / stream.hwRate
  let srcFrames := read.frames / ratio
  if read.frames = 0 then .ok ⟨none, stream, [], []⟩
  else if stream.hwRate = 0 ∨ stream.rate < stream.hwRate ∨ stream.rate % stream.hwRate ≠ 0 then
    .ok ⟨some einval, stream, [], []⟩
  else if read.frames % ratio ≠ 0 then .ok ⟨some einval, stream, [], []⟩
  else if stream.scoInFrames < srcFrames && !read.alloc then .ok ⟨some enomem, stream, [], []⟩
  else
    let grown := { stream with
      scoInFrames := if stream.scoInFrames < srcFrames then srcFrames else stream.scoInFrames }
    let (ret, _) := pcmTransferFrames true read.answers srcFrames 2
    if ret ≠ 0 then .ok ⟨some (if ret < 0 then ret else eio), grown, [], []⟩
    else do
      let buf := (List.range srcFrames).map read.data
      let delivered ← (List.range (srcFrames * ratio)).mapM (interpolate ratio stream.scoLast buf)
      let last := if srcFrames = 0 then stream.scoLast else buf.getD (srcFrames - 1) 0
      return ⟨none, { grown with scoLast := last }, buf, delivered⟩

end Mindone.Audio.Sco
