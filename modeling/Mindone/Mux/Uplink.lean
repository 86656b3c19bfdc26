import Mindone.Mux.DecoderSound
import Mindone.Mux.Transport

/-!
# Mindone.Mux.Uplink

**The transmit queue conserves what it admits.** Over every run of `admit_frame`,
`admit_pty_input` and `drain`, the bytes the writer has accepted and the bytes that
still wait are together the encoded frames that were admitted, in order. A refused
admission changes nothing, and decoding the stream gives the admitted frames back,
hence on each channel the admitted data in order.
-/

namespace Mindone.Mux

open Mindone.Lib Transport

/-! ### Admissions -/

/-- Whether a frame carries data of channel `c`. -/
def Frame.isDataOn (frame : Frame) (c : UInt8) : Bool :=
  frame.channel == c && (frame.kind == ui || frame.kind == uih)

/-- The data of channel `c` in a list of frames. -/
def dataOn (c : UInt8) (frames : List Frame) : List UInt8 :=
  (frames.filter (·.isDataOn c)).flatMap Frame.payload

/-- What the queue admitted. -/
inductive Admission
  | frame (frame : Frame)
  | ptyInput (channel : UInt8) (input : List UInt8)
  deriving DecidableEq

namespace Admission

def frames (frameLimit : Nat) : Admission → List Frame
  | .frame f => [f]
  | .ptyInput channel input => TransmitQueue.ptyFrames channel frameLimit input

/-- The data of channel `c` in an admission: the input itself, whatever its chunks. -/
def data (c : UInt8) : Admission → List UInt8
  | .frame f => if f.isDataOn c then f.payload else []
  | .ptyInput channel input => if channel = c then input else []

/-- An admission that the queue can have accepted. -/
def Sound (frameLimit : Nat) : Admission → Prop
  | .frame f => f.payload.length ≤ frameLimit
  | .ptyInput channel _ => channel < 64

end Admission

theorem commandAddress_facts : ∀ channel : UInt8, channel < 64 →
    (channel <<< 2 ||| 3) >>> 2 = channel ∧ channel <<< 2 ||| 3 ≠ flag := by
  decide +kernel

theorem dataOn_append (c : UInt8) (fs gs : List Frame) :
    dataOn c (fs ++ gs) = dataOn c fs ++ dataOn c gs := by
  simp [dataOn]

/-- The chunks of an input carry the input. -/
theorem dataOn_ptyFrames {channel : UInt8} (hchannel : channel < 64) {frameLimit : Nat}
    (hlimit : frameLimit ≠ 0) (c : UInt8) (input : List UInt8) :
    dataOn c (TransmitQueue.ptyFrames channel frameLimit input) =
      if channel = c then input else [] := by
  have hkind : (uih &&& ~~~pollFinal == uih) = true := by decide
  have hdata : ∀ chunk, (⟨channel <<< 2 ||| 3, uih, chunk⟩ : Frame).isDataOn c =
      decide (channel = c) := by
    intro chunk
    simp only [Frame.isDataOn, Frame.channel, Frame.kind, (commandAddress_facts channel hchannel).1,
      hkind, Bool.or_true, Bool.and_true]
    rfl
  unfold dataOn TransmitQueue.ptyFrames
  by_cases hc : channel = c
  · have hall : ∀ frame ∈ (chunks frameLimit input).map
        fun chunk => (⟨channel <<< 2 ||| 3, uih, chunk⟩ : Frame), frame.isDataOn c = true := by
      intro frame hframe
      obtain ⟨chunk, -, rfl⟩ := List.mem_map.mp hframe
      rw [hdata]
      exact decide_eq_true hc
    rw [if_pos hc, List.filter_eq_self.mpr hall, List.flatMap_map]
    exact List.flatMap_id'.trans (chunks_flatten hlimit input)
  · have hnone : ∀ frame ∈ (chunks frameLimit input).map
        fun chunk => (⟨channel <<< 2 ||| 3, uih, chunk⟩ : Frame), ¬ frame.isDataOn c = true := by
      intro frame hframe
      obtain ⟨chunk, -, rfl⟩ := List.mem_map.mp hframe
      rw [hdata]
      simpa using hc
    rw [if_neg hc, List.filter_eq_nil_iff.mpr hnone]
    rfl

theorem Admission.Sound.data_eq {frameLimit : Nat} (hlimit : frameLimit ≠ 0) {a : Admission}
    (h : a.Sound frameLimit) (c : UInt8) : dataOn c (a.frames frameLimit) = a.data c := by
  cases a with
  | frame frame =>
      unfold Admission.frames Admission.data dataOn
      cases hdata : frame.isDataOn c with
      | true => simp [hdata]
      | false => simp [hdata]
  | ptyInput channel input => exact dataOn_ptyFrames h hlimit c input

theorem Admission.Sound.payload_le {frameLimit : Nat} {a : Admission} (h : a.Sound frameLimit)
    {frame : Frame} (hframe : frame ∈ a.frames frameLimit) :
    frame.payload.length ≤ frameLimit := by
  cases a with
  | frame f =>
      obtain rfl := List.mem_singleton.mp hframe
      exact h
  | ptyInput channel input =>
      obtain ⟨chunk, hchunk, rfl⟩ := List.mem_map.mp hframe
      exact length_le_of_mem_chunks hchunk

/-! ### Runs -/

/-- A transmit queue in use: what its writer accepted and what it admitted. -/
structure Uplink (ω : Type) where
  queue : TransmitQueue
  world : ω
  accepted : List UInt8
  admitted : List Admission

namespace Uplink

variable {ω : Type}

inductive Operation
  | admitFrame (frame : Frame)
  | admitPtyInput (channel : UInt8) (input : List UInt8)
  | drain (budget : TurnBudget)

def start (queue : TransmitQueue) (w : ω) : Uplink ω := ⟨queue, w, [], []⟩

/-- The queue after an admission, with the admission noted when it succeeded. -/
def take (u : Uplink ω) (a : Admission) :
    EStateM.Result Error TransmitQueue Unit → Uplink ω
  | .ok _ queue => { u with queue, admitted := u.admitted ++ [a] }
  | .error _ queue => { u with queue }

def next (writer : ByteWriter ω) (u : Uplink ω) : Operation → Uplink ω
  | .admitFrame frame => u.take (.frame frame) (TransmitQueue.admitFrame frame u.queue)
  | .admitPtyInput channel input =>
      u.take (.ptyInput channel input) (TransmitQueue.admitPtyInput channel input u.queue)
  | .drain budget =>
      let r := u.queue.drain (recording writer) (u.world, u.accepted) budget
      { u with queue := r.2.1, world := r.2.2.1.1, accepted := r.2.2.1.2 }

def run (writer : ByteWriter ω) (u : Uplink ω) (ops : List Operation) : Uplink ω :=
  ops.foldl (next writer) u

/-- The frames that were admitted, in order. -/
def frames (u : Uplink ω) : List Frame :=
  u.admitted.flatMap fun a => a.frames u.queue.frameLimit

structure Valid (frameLimit : Nat) (u : Uplink ω) : Prop where
  limit : u.queue.frameLimit = frameLimit
  sound : ∀ a ∈ u.admitted, a.Sound frameLimit
  conserved : u.accepted ++ u.queue.pending = u.frames.flatMap Frame.wire

theorem start_valid {frameLimit : Nat} {queue : TransmitQueue}
    (hnew : TransmitQueue.new frameLimit = .ok queue) (w : ω) :
    (start queue w).Valid frameLimit where
  limit := (TransmitQueue.new_spec hnew).2
  sound := fun a h => by cases h
  conserved := (TransmitQueue.new_spec hnew).1

/-- An admission that appends the wire bytes of its frames or changes nothing. -/
theorem Valid.take {frameLimit : Nat} {u : Uplink ω} (h : u.Valid frameLimit) {a : Admission}
    {p : EStateM Error TransmitQueue Unit}
    (hp : Ends p u.queue
      (fun _ q' => a.Sound frameLimit ∧ q'.frameLimit = frameLimit ∧
        q'.pending = u.queue.pending ++ (a.frames frameLimit).flatMap Frame.wire)
      fun _ q' => q' = u.queue) : (u.take a (p u.queue)).Valid frameLimit := by
  cases hresult : p u.queue with
  | ok _ q' =>
      obtain ⟨hsound, hlimit, hpending⟩ := (ends_of_ok hresult).mp hp
      refine ⟨hlimit, ?_, ?_⟩
      · intro b hb
        rcases List.mem_append.mp hb with hold | hnew
        · exact h.sound b hold
        · exact List.mem_singleton.mp hnew ▸ hsound
      · have hconserved := h.conserved
        simp only [Uplink.frames, h.limit] at hconserved
        simp only [Uplink.take, Uplink.frames, hlimit, hpending, List.flatMap_append,
          List.flatMap_cons, List.flatMap_nil, List.append_nil]
        rw [← List.append_assoc, hconserved]
  | error e q' =>
      obtain rfl : q' = u.queue := (ends_of_error hresult).mp hp
      exact h

/-- **One operation keeps the queue's account.** -/
theorem Valid.next {frameLimit : Nat} {writer : ByteWriter ω}
    (hwriter : ∀ input w, (writer input w).1 ≠ .fault .deviceReset) {u : Uplink ω}
    (h : u.Valid frameLimit) (op : Operation) : (u.next writer op).Valid frameLimit := by
  cases op with
  | admitFrame frame =>
      refine h.take ((TransmitQueue.admitFrame_spec frame u.queue).mono ?_ fun _ _ he => he.1)
      rintro _ q' ⟨hpayload, -, hpending, hlimit, -⟩
      refine ⟨h.limit ▸ hpayload, hlimit.trans h.limit, ?_⟩
      rw [hpending, Admission.frames, List.flatMap_cons, List.flatMap_nil, List.append_nil]
  | admitPtyInput channel input =>
      refine h.take
        ((TransmitQueue.admitPtyInput_spec channel input u.queue).mono ?_ fun _ _ he => he.1)
      rintro _ q' ⟨-, hchannel, -, hpending, hlimit, -⟩
      refine ⟨hchannel, hlimit.trans h.limit, ?_⟩
      rw [hpending, Admission.frames, h.limit]
  | drain budget =>
      obtain ⟨taken, lost, hspec⟩ :=
        drainLoop_spec writer u.queue.bytes (u.world, u.accepted) budget
      have hreset : ∀ input w, (recording writer input w).1 ≠ .fault .deviceReset :=
        fun input w => hwriter input w.1
      -- without a reset nothing is lost: the accepted bytes left the front of the queue
      obtain rfl := hspec.lost_nil (drainLoop_stop_ne_deviceReset hreset _ _ _)
      refine ⟨h.limit, h.sound, ?_⟩
      have hconserved := h.conserved
      rw [TransmitQueue.pending, hspec.pending_eq, List.append_nil, ← List.append_assoc,
        ← hspec.accepted_eq] at hconserved
      exact hconserved

theorem Valid.run {frameLimit : Nat} {writer : ByteWriter ω}
    (hwriter : ∀ input w, (writer input w).1 ≠ .fault .deviceReset) {u : Uplink ω}
    (h : u.Valid frameLimit) (ops : List Operation) : (u.run writer ops).Valid frameLimit := by
  induction ops generalizing u with
  | nil => exact h
  | cons op ops ih => exact ih (h.next hwriter op)

theorem Valid.payload_le {frameLimit : Nat} {u : Uplink ω} (h : u.Valid frameLimit) {frame : Frame}
    (hframe : frame ∈ u.frames) : frame.payload.length ≤ frameLimit := by
  obtain ⟨a, ha, hmem⟩ := List.mem_flatMap.mp hframe
  rw [h.limit] at hmem
  exact (h.sound a ha).payload_le hmem

theorem Valid.data_eq {frameLimit : Nat} (hlimit : frameLimit ≠ 0) {u : Uplink ω}
    (h : u.Valid frameLimit) (c : UInt8) :
    dataOn c u.frames = u.admitted.flatMap (Admission.data c) := by
  have hsound := h.sound
  simp only [Uplink.frames, h.limit]
  generalize u.admitted = admitted at hsound
  induction admitted with
  | nil => rfl
  | cons a rest ih =>
      rw [List.flatMap_cons, List.flatMap_cons, dataOn_append,
        (hsound a (List.mem_cons_self ..)).data_eq hlimit,
        ih fun b hb => hsound b (List.mem_cons_of_mem _ hb)]

end Uplink

/-- **Conservation on the way up.** After every run on a new queue, with every writer
that does not report a device reset: the bytes the writer accepted, followed by those
that wait, are the encoded frames that were admitted, in order. A refused admission
leaves the waiting bytes as they are. When no admitted frame has the flag byte as its
address, decoding the stream, in whatever chunks that fit, gives exactly the admitted
frames, and on each channel the admitted inputs and data frames in order. -/
theorem uplink_conservation {ω : Type} {frameLimit : Nat} {queue : TransmitQueue}
    (hnew : TransmitQueue.new frameLimit = .ok queue) (writer : ByteWriter ω)
    (hwriter : ∀ input w, (writer input w).1 ≠ .fault .deviceReset) (w : ω)
    (ops : List Uplink.Operation) :
    let u := (Uplink.start queue w).run writer ops
    u.accepted ++ u.queue.pending = u.frames.flatMap (encoded frameLimit) ∧
    (∀ frame e q', TransmitQueue.admitFrame frame u.queue = .error e q' →
      q'.pending = u.queue.pending) ∧
    (∀ channel input e q', TransmitQueue.admitPtyInput channel input u.queue = .error e q' →
      q'.pending = u.queue.pending) ∧
    ((∀ frame ∈ u.frames, frame.address ≠ flag) →
      ∀ (capacity : Nat) (d : Decoder capacity) (chunks : List (List UInt8)),
        Decoder.new frameLimit = .ok d →
        chunks.flatten = u.accepted ++ u.queue.pending →
        (∀ chunk ∈ chunks, frameLimit + 6 + chunk.length ≤ capacity) →
        ∃ out d', d.feed chunks = .ok (out, d') ∧ out = u.frames ∧
          ∀ c, dataOn c out = u.admitted.flatMap (Admission.data c)) := by
  intro u
  -- The invariant of the run.
  have hvalid : u.Valid frameLimit := (Uplink.start_valid hnew w).run hwriter ops
  have hlimit : ValidLimit frameLimit := hvalid.limit ▸ u.queue.limit_valid
  -- Every frame admitted is short enough to be encoded.
  have hencoded : u.frames.flatMap (encoded frameLimit) = u.frames.flatMap Frame.wire :=
    List.flatMap_congr fun f hf => encoded_eq_wire hlimit (hvalid.payload_le hf)
  refine ⟨hvalid.conserved.trans hencoded.symm, ?_, ?_, ?_⟩
  · intro frame e q' herror
    rw [((TransmitQueue.admitFrame_spec frame u.queue).of_error herror).1]
  · intro channel input e q' herror
    rw [((TransmitQueue.admitPtyInput_spec channel input u.queue).of_error herror).1]
  · intro haddress capacity d chunks hdecoder hcut hfit
    obtain ⟨hbuffered, -, hdlimit⟩ := Decoder.new_spec hdecoder
    have hwait : d.buffered.length ≤ d.limit + 6 := by simp [hbuffered]
    obtain ⟨out, d', hfeed⟩ := Decoder.feed_ok chunks hwait (hdlimit ▸ hfit)
    -- With the flag byte no address, the stream is read back as it was written.
    have hsendable : ∀ f ∈ u.frames, Sendable frameLimit f := fun f hf =>
      ⟨haddress f hf, hvalid.payload_le hf⟩
    have hout : out = u.frames := by
      rw [(Decoder.feed_new hdecoder hfeed).1, hcut, hvalid.conserved,
        run_frames hlimit hsendable]
      simp
    refine ⟨out, d', hfeed, hout, fun c => ?_⟩
    rw [hout]
    exact hvalid.data_eq (Nat.pos_iff_ne_zero.mp hlimit.1) c

/-- A writer that takes one byte of every offer. -/
theorem uplink_conservation_short_writes :
    ∃ queue, TransmitQueue.new 2 = .ok queue ∧
      let u := (Uplink.start queue ()).run (fun _ w => (.transferred 1, w))
        [.admitPtyInput 1 [7, 8, 9], .drain ⟨4, 16, 0, 0, by decide, by decide⟩,
          .admitFrame ⟨3, 0x2f, []⟩, .admitPtyInput 0 [1]]
      u.accepted ++ u.queue.pending = u.frames.flatMap (encoded 2) := by
  obtain ⟨queue, hnew⟩ : ∃ queue, TransmitQueue.new 2 = .ok queue := ⟨_, rfl⟩
  exact ⟨queue, hnew, (uplink_conservation hnew _ (fun _ _ h => by cases h) () _).1⟩

/-- A data frame that is admitted directly comes out of the decoder on its channel
although no input was admitted there. -/
theorem direct_frame_adds_data :
    ∃ queue, TransmitQueue.new 2 = .ok queue ∧
      let u := (Uplink.start queue ()).run (fun _ w => (.transferred 1, w))
        [.admitFrame ⟨7, 0xef, [5]⟩]
      u.admitted = [.frame ⟨7, 0xef, [5]⟩] ∧
      ∃ (d d' : Decoder 32) (out : List Frame), Decoder.new 2 = .ok d ∧
        d.feed [u.accepted ++ u.queue.pending] = .ok (out, d') ∧ dataOn 1 out = [5] := by
  obtain ⟨queue, hnew⟩ : ∃ queue, TransmitQueue.new 2 = .ok queue := ⟨_, rfl⟩
  refine ⟨queue, hnew, ?_⟩
  intro u
  have hstream : u.admitted = [.frame ⟨7, 0xef, [5]⟩] ∧
      u.accepted ++ u.queue.pending = [0xf9, 0x07, 0xef, 0x03, 0x05, 0xd4, 0xf9] := by
    cases hnew
    decide +kernel
  obtain ⟨d, hd, hbuf, -, hlimit⟩ := Decoder.new_ok 32 (show ValidLimit 2 by decide) (by decide)
  obtain ⟨out, d', hfeed⟩ := Decoder.feed_ok (d := d) [u.accepted ++ u.queue.pending]
    (by simp [hbuf]) (by rw [hlimit, hstream.2]; decide)
  refine ⟨hstream.1, d, d', out, hd, hfeed, ?_⟩
  rw [(Decoder.feed_new hd hfeed).1, hstream.2]
  decide +kernel

end Mindone.Mux
