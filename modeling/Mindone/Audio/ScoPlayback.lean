import Mindone.Audio.ScoRate
import Mindone.Lib.Groups
import Mathlib.Algebra.BigOperators.Group.List.Basic

/-!
# Mindone.Audio.ScoPlayback

**However the stream is cut into buffers, the SCO device gets the means of its groups of frames**:
what has left and what is staged are together the means of the whole stream, and the accumulator
holds the sum of the frames behind the last group (`Follows`). Packets leave whole.

There is one way to lose this. When the device takes a part of what a flush offers and refuses the
rest, the flush fails with everything still staged, and the next one sends the part a second time
(`breaksOff`).
-/

namespace Mindone.Audio.Sco

open Mindone.Lib

/-! ### What the device refuses -/

/-- The device refuses a part of the frames of a playback transfer. -/
def refuses : List Answer → Bool → Nat → Bool
  | _, _, 0 => false
  | [], _, _ + 1 => false
  | answer :: answers, recovered, frames + 1 =>
      let count := if frames + 1 > intMax then intMax else frames + 1
      if answer.rc < 0 then
        if !recovered && answer.prepare == 0 then refuses answers true (frames + 1) else true
      else if answer.rc = 0 ∨ answer.rc.toNat > count then true
      else refuses answers recovered (frames + 1 - answer.rc.toNat)

/-- The device takes a part of the frames of a playback transfer and refuses the rest. -/
def breaksOff : List Answer → Bool → Nat → Bool
  | _, _, 0 => false
  | [], _, _ + 1 => false
  | answer :: answers, recovered, frames + 1 =>
      let count := if frames + 1 > intMax then intMax else frames + 1
      if answer.rc < 0 then
        if !recovered && answer.prepare == 0 then breaksOff answers true (frames + 1) else false
      else if answer.rc = 0 ∨ answer.rc.toNat > count then false
      else refuses answers recovered (frames + 1 - answer.rc.toNat)

/-- A transfer that returns without an error has moved all its frames. -/
theorem transferLoop_ok (input : Bool) (answers : List Answer) (recovered : Bool) (frames : Nat)
    (h : (transferLoop input answers recovered frames).1 = 0) :
    (transferLoop input answers recovered frames).2 = frames := by
  fun_induction transferLoop input answers recovered frames with
  | case1 => rfl
  | case2 => rfl
  | case3 _ _ _ _ _ _ ih => exact ih h
  | case4 => simp at h; omega
  | case5 => simp [eio] at h
  | case6 answer answers recovered frames count hneg hbad rest ih =>
      have hcount : count ≤ frames + 1 := by simp only [count]; split <;> omega
      simp only [rest] at h ⊢
      rw [ih h]
      omega

theorem refuses_iff (answers : List Answer) (recovered : Bool) (frames : Nat) :
    refuses answers recovered frames = true ↔
      (transferLoop false answers recovered frames).1 ≠ 0 := by
  fun_induction refuses answers recovered frames with
  | case1 => simp [transferLoop]
  | case2 => simp [transferLoop]
  | case3 answer answers recovered frames hneg hprep ih =>
      simp only [transferLoop, if_pos hneg]
      simpa [hprep] using ih
  | case4 answer answers recovered frames hneg hprep =>
      simp only [transferLoop, if_pos hneg]
      simp [hprep]
      omega
  | case5 answer answers recovered frames count hneg hbad =>
      simp only [transferLoop, if_neg hneg]
      rw [if_pos hbad]
      simp [eio]
  | case6 answer answers recovered frames count hneg hbad ih =>
      simp only [transferLoop, if_neg hneg]
      rw [if_neg hbad]
      exact ih

/-- A transfer is broken off if it fails with frames left. -/
theorem breaksOff_iff (answers : List Answer) (recovered : Bool) (frames : Nat) :
    breaksOff answers recovered frames = true ↔
      (transferLoop false answers recovered frames).1 ≠ 0 ∧
        (transferLoop false answers recovered frames).2 ≠ 0 := by
  fun_induction breaksOff answers recovered frames with
  | case1 => simp [transferLoop]
  | case2 => simp [transferLoop]
  | case3 answer answers recovered frames hneg hprep ih =>
      simp only [transferLoop, if_pos hneg]
      simpa [hprep] using ih
  | case4 answer answers recovered frames hneg hprep =>
      simp only [transferLoop, if_pos hneg]
      simp [hprep]
  | case5 answer answers recovered frames count hneg hbad =>
      simp only [transferLoop, if_neg hneg]
      rw [if_pos hbad]
      simp
  | case6 answer answers recovered frames count hneg hbad =>
      simp only [transferLoop, if_neg hneg]
      rw [if_neg hbad, refuses_iff]
      have : answer.rc.toNat ≠ 0 := by omega
      simp [this]

/-- `pcm_transfer_frames` with samples of two bytes breaks off. -/
def transferBreaksOff (answers : List Answer) (frames : Nat) : Bool :=
  frames ≤ sizeMax / 2 && breaksOff answers false frames

/-- A flush with as many whole packets as there are frames in `whole`. -/
theorem scoOutFlush_eq (out : Out) (answers : List Answer) {whole rc moved}
    (hwhole : out.scoStaged.length / scoPcmPacketFrames * scoPcmPacketFrames = whole)
    (htransfer : pcmTransferFrames false answers whole 2 = (rc, moved)) :
    scoOutFlush out answers =
      if whole = 0 then ⟨0, out, []⟩
      else if rc ≠ 0 then ⟨rc, out, out.scoStaged.take moved⟩
      else ⟨0, { out with scoStaged := out.scoStaged.drop whole }, out.scoStaged.take moved⟩ := by
  subst hwhole
  simp only [scoOutFlush, htransfer]

/-- A flush keeps the samples in their order and sends whole packets, unless its transfer breaks off;
then it sends some and keeps them all. -/
theorem scoOutFlush_spec (out : Out) (answers : List Answer) {whole}
    (hwhole : out.scoStaged.length / scoPcmPacketFrames * scoPcmPacketFrames = whole) :
    ∃ staged, (scoOutFlush out answers).out = { out with scoStaged := staged } ∧
      ((transferBreaksOff answers whole = false ∧
          (scoOutFlush out answers).sent ++ staged = out.scoStaged ∧
          30 ∣ (scoOutFlush out answers).sent.length) ∨
        (transferBreaksOff answers whole = true ∧
          staged = out.scoStaged ∧ (scoOutFlush out answers).sent ≠ [])) := by
  obtain ⟨rc, moved, htransfer⟩ : ∃ rc moved,
      pcmTransferFrames false answers whole 2 = (rc, moved) := ⟨_, _, rfl⟩
  rw [scoOutFlush_eq out answers hwhole htransfer]
  have hle : whole ≤ out.scoStaged.length := by
    rw [← hwhole]
    exact Nat.div_mul_le_self _ _
  have hpackets : 30 ∣ whole := by
    rw [← hwhole]
    exact Nat.dvd_mul_left 30 _
  by_cases hzero : whole = 0
  · exact ⟨out.scoStaged, by simp [hzero], .inl (by simp [hzero, transferBreaksOff, breaksOff])⟩
  rw [if_neg hzero]
  by_cases hsize : whole ≤ sizeMax / 2
  · have hloop : transferLoop false answers false whole = (rc, moved) := by
      rw [← htransfer, pcmTransferFrames, if_neg (by omega)]
    have hbreaks := breaksOff_iff answers false whole
    have hok := transferLoop_ok false answers false whole
    rw [hloop] at hbreaks hok
    have hall : transferBreaksOff answers whole = breaksOff answers false whole := by
      simp [transferBreaksOff, hsize]
    rw [hall]
    by_cases hrc : rc = 0
    · have hmoved : moved = whole := hok hrc
      have hlen : (out.scoStaged.take whole).length = whole := List.length_take_of_le hle
      refine ⟨out.scoStaged.drop whole, by simp [hrc], .inl ⟨by simpa [hrc] using hbreaks, ?_, ?_⟩⟩
      · simp [hrc, hmoved]
      · simp only [hrc, hmoved, ne_eq, not_true_eq_false, if_false, hlen, hpackets]
    · refine ⟨out.scoStaged, by simp [hrc], ?_⟩
      by_cases hmoved : moved = 0
      · exact .inl (by simpa [hrc, hmoved] using hbreaks)
      · have hsome : out.scoStaged ≠ [] := List.ne_nil_of_length_pos (by omega)
        exact .inr (by simpa [hrc, hmoved, hsome] using hbreaks)
  · -- the sizes are refused before the device is asked
    have hrefused : pcmTransferFrames false answers whole 2 = (einval, 0) := by
      simp only [pcmTransferFrames]
      rw [if_pos (by omega)]
    rw [hrefused] at htransfer
    cases htransfer
    exact ⟨out.scoStaged, by simp [einval], .inl (by simp [einval, transferBreaksOff, hsize])⟩

/-! ### Arithmetic -/

theorem int32_eq_ok {x : Int} (h : -2 ^ 31 ≤ x ∧ x < 2 ^ 31) : int32 x = .ok x := if_pos h

theorem int16_eq_ok {x : Int} (h : -2 ^ 15 ≤ x ∧ x < 2 ^ 15) :
    ∃ sample : Int16, int16 x = .ok sample ∧ sample.toInt = x :=
  ⟨Int16.ofInt x, if_pos h, Int16.toInt_ofInt_of_le h.1 h.2⟩

theorem castInt32_eq {n : Nat} (h : n < 2 ^ 31) : castInt32 n = n :=
  Int.bmod_eq_of_le_mul_two (by omega) (by omega)

/-- A number that an `int16_t` holds. -/
def Fits16 (x : Int) : Prop := -2 ^ 15 ≤ x ∧ x < 2 ^ 15

theorem fits16_toInt (sample : Int16) : Fits16 sample.toInt := ⟨sample.le_toInt, sample.toInt_lt⟩

/-- The sum of samples grows with their number. -/
theorem sum_bounds {monos : List Int} (h : ∀ m ∈ monos, Fits16 m) :
    -2 ^ 15 * (monos.length : Int) ≤ monos.sum ∧ monos.sum ≤ (2 ^ 15 - 1) * (monos.length : Int) := by
  induction monos with
  | nil => simp
  | cons m monos ih =>
      have htail := ih fun x hx => h x (List.mem_cons_of_mem m hx)
      have hhead := h m List.mem_cons_self
      simp only [Fits16] at hhead
      simp only [List.sum_cons, List.length_cons]
      omega

/-- The mean of samples is a sample. -/
theorem fits16_mean (monos : List Int) (h : ∀ m ∈ monos, Fits16 m) :
    Fits16 (monos.sum.tdiv monos.length) := by
  have hsum := sum_bounds h
  rcases Nat.eq_zero_or_pos monos.length with hzero | hpos
  · simp [hzero, Fits16]
  · have hn : (0 : Int) < monos.length := by omega
    have hlow := Int.tdiv_le_tdiv hn hsum.1
    have hhigh := Int.tdiv_le_tdiv hn hsum.2
    rw [Int.mul_tdiv_cancel _ (by omega)] at hlow hhigh
    exact ⟨hlow, by omega⟩

/-- The sum of fewer samples than fill an accumulator. -/
theorem int32_sum (monos : List Int) (h : ∀ m ∈ monos, Fits16 m) (hlen : monos.length ≤ 65536) :
    int32 monos.sum = .ok monos.sum := by
  have hsum := sum_bounds h
  exact int32_eq_ok ⟨by omega, by omega⟩

/-! ### The whole stream -/

/-- The down-mix of a frame, without bounds. -/
def Frame.mean (frame : Frame) : Int :=
  match frame.right with
  | none => frame.left.toInt
  | some right => (frame.left.toInt + right.toInt).tdiv 2

theorem fits16_frameMean (frame : Frame) : Fits16 frame.mean := by
  obtain ⟨left, right⟩ := frame
  cases right with
  | none => exact fits16_toInt left
  | some right =>
      have h := fits16_mean [left.toInt, right.toInt] (by simp [fits16_toInt])
      simpa [Frame.mean] using h

theorem mono_eq (frame : Frame) : mono frame = .ok frame.mean := by
  obtain ⟨left, right⟩ := frame
  cases right with
  | none => rfl
  | some right =>
      have h := int32_sum [left.toInt, right.toInt] (by simp [fits16_toInt]) (by simp)
      simp only [List.sum_cons, List.sum_nil, Int.add_zero] at h
      simp [mono, Frame.mean, h, Except.map]

/-- The truncated means of consecutive groups of `ratio` frames. -/
def means (ratio : Nat) (monos : List Int) : List Int :=
  (groups ratio monos).map fun group => group.sum.tdiv ratio

@[simp] theorem length_means (ratio : Nat) (monos : List Int) :
    (means ratio monos).length = monos.length / ratio := by
  simp [means]

/-- What a stream is given. -/
inductive Part
  | played (frames : List Frame)
  | drained
  deriving DecidableEq

/-- The samples that are done with, up to the last drain, and the down-mixed frames behind it. -/
structure Whole where
  finished : List Int
  monos : List Int

def Whole.samples (ratio : Nat) (whole : Whole) : List Int :=
  whole.finished ++ means ratio whole.monos

/-- Samples filled up to whole packets. -/
def padded (samples : List Int) : List Int :=
  samples ++ List.replicate ((samples.length + 29) / 30 * 30 - samples.length) 0

/-- The mean of the frames that do not fill a group. -/
def restMean (ratio : Nat) (monos : List Int) : List Int :=
  let rest := leftover ratio monos
  if rest = [] then [] else [rest.sum.tdiv rest.length]

/-- A drain ends with the mean of what is left over, in a packet that is filled up with silence. -/
def Whole.next (ratio : Nat) (whole : Whole) : Part → Whole
  | .played frames => { whole with monos := whole.monos ++ frames.map Frame.mean }
  | .drained => ⟨padded (whole.samples ratio ++ restMean ratio whole.monos), []⟩

def wholeOf (ratio : Nat) (parts : List Part) : Whole := parts.foldl (Whole.next ratio) ⟨[], []⟩

@[simp] theorem wholeOf_append (ratio : Nat) (parts : List Part) (part : Part) :
    wholeOf ratio (parts ++ [part]) = (wholeOf ratio parts).next ratio part := by
  simp [wholeOf]

/-! ### What the stream keeps up -/

/-- The stream has sent or staged the samples of the whole, and carries the rest. -/
structure Follows (sent : List Int16) (whole : Whole) (out : Out) : Prop where
  samples : (sent ++ out.scoStaged).map Int16.toInt = whole.samples out.ratio
  acc : out.scoAcc = (leftover out.ratio whole.monos).sum
  accN : out.scoAccN = (leftover out.ratio whole.monos).length
  bounded : ∀ m ∈ whole.monos, Fits16 m

/-- The ratios that the accumulator is wide enough for. -/
def PlayRatio (ratio : Nat) : Prop := 1 ≤ ratio ∧ ratio ≤ 65536

variable {sent : List Int16} {whole : Whole} {out : Out}

theorem mem_of_mem_leftover {α : Type} {n : Nat} {xs : List α} {x : α} (h : x ∈ leftover n xs) :
    x ∈ xs :=
  List.mem_of_mem_drop h

theorem Follows.length (h : Follows sent whole out) :
    sent.length + out.scoStaged.length =
      whole.finished.length + whole.monos.length / out.ratio := by
  have hlen := congrArg List.length h.samples
  simpa [Whole.samples] using hlen

/-- **One frame**: it completes a group, whose mean is staged, or stays in the accumulator. -/
theorem convertFrame_follows (h : Follows sent whole out) (hratio : PlayRatio out.ratio)
    (frame : Frame)
    (hroom : out.scoAccN + 1 = out.ratio → out.scoStaged.length < out.scoBufFrames) :
    ∃ out', convertFrame out frame = .ok out' ∧
      Follows sent { whole with monos := whole.monos ++ [frame.mean] } out' ∧
      out'.ratio = out.ratio ∧ out'.scoBufFrames = out.scoBufFrames := by
  obtain ⟨hpos, hmax⟩ := hratio
  have hrest : ∀ m ∈ leftover out.ratio whole.monos ++ [frame.mean], Fits16 m := by
    intro m hm
    simp only [List.mem_append, List.mem_singleton] at hm
    obtain hm | rfl := hm
    · exact h.bounded m (mem_of_mem_leftover hm)
    · exact fits16_frameMean frame
  have hbounded : ∀ m ∈ whole.monos ++ [frame.mean], Fits16 m := by
    intro m hm
    simp only [List.mem_append, List.mem_singleton] at hm
    obtain hm | rfl := hm
    · exact h.bounded m hm
    · exact fits16_frameMean frame
  have hlt := length_leftover_lt hpos whole.monos
  -- The accumulator is the sum of what is left over, which fits.
  have hacc : int32 (out.scoAcc + frame.mean) =
      .ok (leftover out.ratio whole.monos ++ [frame.mean]).sum := by
    have hsum := int32_sum _ hrest (by simp only [List.length_append, List.length_singleton]; omega)
    simpa [h.acc] using hsum
  -- The group is complete: its mean is a sample, and nothing is left over.
  by_cases hfull : out.scoAccN + 1 = out.ratio
  · have hlen : (leftover out.ratio whole.monos).length + 1 = out.ratio := by rw [← h.accN, hfull]
    obtain ⟨hgroups, hnone⟩ := groups_concat_full frame.mean hlen
    have hmean := fits16_mean _ hrest
    rw [List.length_append, List.length_singleton, hlen] at hmean
    obtain ⟨sample, hsample, hvalue⟩ := int16_eq_ok hmean
    refine ⟨{ out with scoStaged := out.scoStaged ++ [sample], scoAcc := 0, scoAccN := 0 },
      ?_, ⟨?_, ?_, ?_, hbounded⟩, rfl, rfl⟩
    · simp only [convertFrame, mono_eq, bind, Except.bind, hacc, if_pos hfull,
        castInt32_eq (show out.ratio < 2 ^ 31 by omega), hsample, Out.put, if_pos (hroom hfull)]
      rfl
    · have hsamples := h.samples
      simp only [Whole.samples, means] at hsamples ⊢
      rw [hgroups, ← List.append_assoc, List.map_append, hsamples]
      simp [hvalue]
    · simp [hnone]
    · simp [hnone]
  -- The group goes on: no sample is staged.
  · have hlen : (leftover out.ratio whole.monos).length + 1 < out.ratio := by
      have := h.accN
      omega
    obtain ⟨hgroups, hmore⟩ := groups_concat_part frame.mean hlen
    refine ⟨{ out with
      scoAcc := (leftover out.ratio whole.monos ++ [frame.mean]).sum
      scoAccN := out.scoAccN + 1 }, ?_, ⟨?_, ?_, ?_, hbounded⟩, rfl, rfl⟩
    · simp only [convertFrame, mono_eq, bind, Except.bind, hacc, if_neg hfull]
      rfl
    · have hsamples := h.samples
      simp only [Whole.samples, means] at hsamples ⊢
      rw [hgroups, hsamples]
    · rw [hmore]
    · simp [hmore, h.accN]

/-- **A buffer of frames**, in a `sco_buf` with room for the samples they make. -/
theorem convertFrames_follows (frames : List Frame) (h : Follows sent whole out)
    (hratio : PlayRatio out.ratio)
    (hroom : whole.finished.length + (whole.monos.length + frames.length) / out.ratio ≤
      sent.length + out.scoBufFrames) :
    ∃ out', frames.foldlM convertFrame out = .ok out' ∧
      Follows sent (whole.next out.ratio (.played frames)) out' ∧
      out'.ratio = out.ratio ∧ out'.scoBufFrames = out.scoBufFrames := by
  induction frames generalizing whole out with
  | nil => exact ⟨out, rfl, by simpa [Whole.next] using h, rfl, rfl⟩
  | cons frame frames ih =>
      have hone : out.scoAccN + 1 = out.ratio →
          out.scoStaged.length < out.scoBufFrames := by
        -- the frame completes a group, so its sample is among those that there is room for
        intro hfull
        have hlen := h.length
        have hgroup : whole.monos.length / out.ratio + 1 ≤
            (whole.monos.length + (frame :: frames).length) / out.ratio := by
          have hrest := h.accN
          rw [length_leftover] at hrest
          have hsplit := Nat.div_add_mod whole.monos.length out.ratio
          rw [Nat.le_div_iff_mul_le hratio.1, Nat.add_mul, Nat.one_mul, Nat.mul_comm]
          simp only [List.length_cons]
          omega
        omega
      obtain ⟨out₁, hrun, hfollows, hratio₁, hbuf₁⟩ := convertFrame_follows h hratio frame hone
      have hsum : whole.monos.length + 1 + frames.length =
          whole.monos.length + (frame :: frames).length := by
        simp only [List.length_cons]
        omega
      obtain ⟨out₂, hrun₂, hfollows₂, hratio₂, hbuf₂⟩ := ih hfollows (by rwa [hratio₁]) (by
        simpa [hratio₁, hbuf₁, hsum] using hroom)
      refine ⟨out₂, ?_, ?_, by rw [hratio₂, hratio₁], by rw [hbuf₂, hbuf₁]⟩
      · simp [List.foldlM_cons, hrun, bind, Except.bind, hrun₂]
      · simpa [Whole.next, List.append_assoc] using hfollows₂

/-! ### Operations -/

theorem Out.grow_some {need : Nat} {alloc : Bool} {grown : Out} (h : out.grow need alloc = some grown) :
    ∃ frames, grown = { out with scoBufFrames := frames } ∧ need ≤ frames := by
  unfold Out.grow at h
  split at h
  next hlt =>
    split at h
    · cases h
      exact ⟨need, rfl, Nat.le_refl _⟩
    · cases h
  next hge =>
    cases h
    exact ⟨out.scoBufFrames, rfl, Nat.not_lt.mp hge⟩

/-- The buffer that a call asks for. -/
def Op.need (out : Out) : Op → Nat
  | .write buffer => out.scoStaged.length + buffer.played.length / out.ratio + 1
  | .tail _ _ =>
      (out.scoStaged.length + (if out.scoAccN = 0 then 0 else 1) + scoPcmPacketFrames - 1) /
        scoPcmPacketFrames * scoPcmPacketFrames
  | .stop | .reopen _ => 0

/-- What a call adds to the stream: nothing when there is nothing to do, or no memory. -/
def Op.parts (out : Out) (op : Op) : List Part :=
  match op with
  | .write buffer =>
      if buffer.frames = [] then []
      else if buffer.volume.isSome && !buffer.dspAlloc then []
      else if (out.grow (op.need out) buffer.alloc).isNone then []
      else [.played buffer.played]
  | .tail alloc _ =>
      if out.scoStaged = [] ∧ out.scoAccN = 0 then []
      else if (out.grow (op.need out) alloc).isNone then []
      else [.drained]
  | .stop | .reopen _ => []

/-- The frames that the flush of a call offers to the device. -/
def Op.offers (out : Out) (op : Op) : Nat :=
  match op with
  | .write buffer =>
      let staged := out.scoStaged.length + (out.scoAccN + buffer.played.length) / out.ratio
      if 0 ≤ castInt32 staged then staged / scoPcmPacketFrames * scoPcmPacketFrames else 0
  | .tail _ _ => op.need out
  | .stop | .reopen _ => 0

def Op.answers : Op → List Answer
  | .write buffer => buffer.answers
  | .tail _ answers => answers
  | .stop | .reopen _ => []

/-- **The call's transfer breaks off**: the device takes a part of what is offered to it and refuses
the rest. -/
def Op.breaksOff (out : Out) (op : Op) : Bool :=
  !(op.parts out).isEmpty && transferBreaksOff op.answers (op.offers out)

/-- A stream with what it has sent and what it was given since it was opened or stopped. -/
structure Track where
  out : Out
  sent : List Int16
  taken : List Part
  deriving DecidableEq

def Track.opened (ratio : Nat) : Track := ⟨Sco.opened ratio, [], []⟩

def Track.step (track : Track) (op : Op) : Except Trap Track := do
  let result ← op.apply track.out
  match op with
  | .stop | .reopen _ => return ⟨result.out, [], []⟩
  | _ => return ⟨result.out, track.sent ++ result.sent, track.taken ++ op.parts track.out⟩

/-- The stream follows the whole of what it was given, and has sent whole packets. -/
structure Lawful (track : Track) : Prop where
  follows : Follows track.sent (wholeOf track.out.ratio track.taken) track.out
  packets : 30 ∣ track.sent.length

theorem lawful_empty (ratio frames : Nat) : Lawful ⟨⟨ratio, [], frames, 0, 0⟩, [], []⟩ where
  follows := ⟨by simp [Whole.samples, wholeOf, means], by simp [wholeOf], by simp [wholeOf],
    by simp [wholeOf]⟩
  packets := Nat.dvd_zero _

/-- A flush of a stream that follows its whole goes on following it, unless it breaks off. -/
theorem flush_lawful {sent : List Int16} {parts : List Part} {out : Out} (answers : List Answer)
    (offered : Nat)
    (hfollows : Follows sent (wholeOf out.ratio parts) out) (hpackets : 30 ∣ sent.length)
    (hoffered : out.scoStaged.length / scoPcmPacketFrames * scoPcmPacketFrames = offered) :
    (scoOutFlush out answers).out.ratio = out.ratio ∧
      (Lawful ⟨(scoOutFlush out answers).out, sent ++ (scoOutFlush out answers).sent, parts⟩ ↔
        transferBreaksOff answers offered = false) := by
  obtain ⟨staged, hout, hspec⟩ := scoOutFlush_spec out answers hoffered
  refine ⟨by rw [hout], ?_⟩
  rw [hout]
  obtain ⟨hclean, hsamples, hwhole⟩ | ⟨hbroken, rfl, hsome⟩ := hspec
  · refine ⟨fun _ => hclean, fun _ => ⟨⟨?_, hfollows.acc, hfollows.accN, hfollows.bounded⟩, ?_⟩⟩
    · rw [List.append_assoc, hsamples]
      exact hfollows.samples
    · rw [List.length_append]
      exact Nat.dvd_add hpackets hwhole
  · -- what was sent is still staged, so there is more than the whole
    refine ⟨fun hlawful => ?_, fun hclean => by simp [hclean] at hbroken⟩
    have hmore := hlawful.follows.length
    have hlen := hfollows.length
    have hpos := List.length_pos_iff.mpr hsome
    simp only [List.length_append] at hmore hlen
    omega

variable {track : Track}

/-- A call that does nothing leaves the stream lawful. -/
theorem Lawful.unchanged (h : Lawful track) : Lawful ⟨track.out, track.sent ++ [], track.taken ++ []⟩ := by
  simpa using h

theorem Follows.grown (h : Follows sent whole out) (frames : Nat) :
    Follows sent whole { out with scoBufFrames := frames } :=
  ⟨h.samples, h.acc, h.accN, h.bounded⟩

/-- How many groups more frames complete. -/
theorem add_div_eq {a b n : Nat} (hn : 0 < n) : (a + b) / n = a / n + (a % n + b) / n := by
  have hsplit := Nat.div_add_mod a n
  have hsum : a + b = n * (a / n) + (a % n + b) := by omega
  rw [hsum, Nat.mul_add_div hn]

/-- **A write stays lawful exactly if the transfer is not broken off.** -/
theorem write_lawful (h : Lawful track) (hratio : PlayRatio track.out.ratio) (buffer : Buffer) :
    ∃ result, outWrite track.out buffer = .ok result ∧ result.out.ratio = track.out.ratio ∧
      (Lawful ⟨result.out, track.sent ++ result.sent,
          track.taken ++ (Op.write buffer).parts track.out⟩ ↔
        (Op.write buffer).breaksOff track.out = false) := by
  unfold outWrite
  by_cases hempty : buffer.frames = []
  · exact ⟨_, if_pos hempty, rfl, by simp [Op.breaksOff, Op.parts, hempty, h]⟩
  rw [if_neg hempty]
  by_cases hdsp : (buffer.volume.isSome && !buffer.dspAlloc) = true
  · exact ⟨_, if_pos hdsp, rfl, by simp [Op.breaksOff, Op.parts, hdsp, h]⟩
  rw [if_neg hdsp]
  cases hgrow : track.out.grow ((Op.write buffer).need track.out) buffer.alloc with
  | none =>
      have hconvert : scoOutConvert track.out buffer.played buffer.alloc =
          .ok (enomem, track.out) := by
        unfold scoOutConvert
        unfold Op.need at hgrow
        simp only [hgrow]
      refine ⟨⟨enomem, track.out, []⟩, ?_, rfl, ?_⟩
      · simp [hconvert, bind, Except.bind, enomem, pure, Except.pure]
      · simp [Op.breaksOff, Op.parts, hgrow, h]
  | some grown =>
      obtain ⟨frames, rfl, hneed⟩ := Out.grow_some hgrow
      have hstaged := h.follows.length
      have hrest := h.follows.accN
      rw [length_leftover] at hrest
      have hmore := add_div_eq (a := (wholeOf track.out.ratio track.taken).monos.length)
        (b := buffer.played.length) hratio.1
      rw [← hrest] at hmore
      have hroom : (track.out.scoAccN + buffer.played.length) / track.out.ratio ≤
          buffer.played.length / track.out.ratio + 1 := by
        -- a frame that is carried makes one sample more at the most
        have hlt := length_leftover_lt hratio.1 (wholeOf track.out.ratio track.taken).monos
        rw [← h.follows.accN] at hlt
        rw [← Nat.add_div_right _ hratio.1]
        exact Nat.div_le_div_right (by omega)
      obtain ⟨out', hrun, hfollows, hsame, hframes⟩ := convertFrames_follows buffer.played
        (h.follows.grown frames) hratio (by simp only [Op.need] at hneed ⊢; omega)
      have hconvert : scoOutConvert track.out buffer.played buffer.alloc =
          .ok (castInt32 out'.scoStaged.length, out') := by
        unfold scoOutConvert
        unfold Op.need at hgrow
        simp only [hgrow, hrun]
        rfl
      have hparts : (Op.write buffer).parts track.out = [.played buffer.played] := by
        simp [Op.parts, hempty, hdsp, hgrow]
      have hwhole : Follows track.sent
          (wholeOf out'.ratio (track.taken ++ [Part.played buffer.played])) out' := by
        rw [wholeOf_append, hsame]
        exact hfollows
      have hlen : out'.scoStaged.length = track.out.scoStaged.length +
          (track.out.scoAccN + buffer.played.length) / track.out.ratio := by
        have hafter := hfollows.length
        simp only [Whole.next, List.length_append, List.length_map, hsame] at hafter
        omega
      rw [hparts]
      by_cases hcast : 0 ≤ castInt32 out'.scoStaged.length
      · obtain ⟨hkept, hiff⟩ := flush_lawful buffer.answers _ hwhole h.packets rfl
        refine ⟨scoOutFlush out' buffer.answers, ?_, by rw [hkept, hsame], ?_⟩
        · simp only [hconvert, bind, Except.bind, if_pos hcast]
          rfl
        · rw [hiff, hlen]
          rw [hlen] at hcast
          simp [Op.breaksOff, hparts, Op.answers, Op.offers, hcast]
      · -- more samples are staged than the return code can say
        refine ⟨⟨castInt32 out'.scoStaged.length, out', []⟩, ?_, hsame, ?_⟩
        · simp only [hconvert, bind, Except.bind, if_neg hcast]
          rfl
        · rw [hlen] at hcast
          have hclean : (Op.write buffer).breaksOff track.out = false := by
            simp [Op.breaksOff, Op.offers, hcast, transferBreaksOff, breaksOff]
          simp only [hclean, iff_true]
          exact ⟨by simpa using hwhole, by simpa using h.packets⟩

/-- The mean of the frames that do not fill a group is staged. -/
theorem putRest_follows (h : Follows sent whole out) (hratio : PlayRatio out.ratio)
    (hroom : out.scoAccN ≠ 0 → out.scoStaged.length < out.scoBufFrames) :
    ∃ staged, out.putRest = .ok { out with scoStaged := out.scoStaged ++ staged } ∧
      staged.map Int16.toInt = restMean out.ratio whole.monos ∧
      staged.length = if out.scoAccN = 0 then 0 else 1 := by
  have hacc := h.acc
  have hlen := h.accN
  have hlt := length_leftover_lt hratio.1 whole.monos
  unfold Out.putRest restMean
  by_cases hzero : out.scoAccN = 0
  · have hnone : leftover out.ratio whole.monos = [] := List.length_eq_zero_iff.mp (by omega)
    exact ⟨[], by rw [if_pos hzero, List.append_nil], by simp [hnone], by simp [hzero]⟩
  · have hsome : leftover out.ratio whole.monos ≠ [] := fun hnone => by simp [hnone] at hlen; omega
    have hmean : Fits16 ((leftover out.ratio whole.monos).sum.tdiv
        (leftover out.ratio whole.monos).length) :=
      fits16_mean _ fun m hm => h.bounded m (mem_of_mem_leftover hm)
    obtain ⟨sample, hsample, hvalue⟩ := int16_eq_ok hmean
    refine ⟨[sample], ?_, by simp [hsome, hvalue], by simp [hzero]⟩
    have hsmall : out.scoAccN < 2 ^ 31 := by
      have := hratio.2
      omega
    have hvalue' : int16 (out.scoAcc.tdiv (castInt32 out.scoAccN)) = .ok sample := by
      rw [castInt32_eq hsmall, hacc, hlen, hsample]
    rw [if_neg hzero, hvalue']
    simp only [bind, Except.bind, Out.put, if_pos (hroom hzero)]

/-- **The tail of a stream likewise.** -/
theorem tail_lawful (h : Lawful track) (hratio : PlayRatio track.out.ratio) (alloc : Bool)
    (answers : List Answer) :
    ∃ result, outAidlTail track.out alloc answers = .ok result ∧
      result.out.ratio = track.out.ratio ∧
      (Lawful ⟨result.out, track.sent ++ result.sent,
          track.taken ++ (Op.tail alloc answers).parts track.out⟩ ↔
        (Op.tail alloc answers).breaksOff track.out = false) := by
  unfold outAidlTail
  by_cases hempty : track.out.scoStaged = [] ∧ track.out.scoAccN = 0
  · exact ⟨_, if_pos hempty, rfl, by simp [Op.breaksOff, Op.parts, hempty, h]⟩
  rw [if_neg hempty]
  cases hgrow : track.out.grow ((Op.tail alloc answers).need track.out) alloc with
  | none =>
      refine ⟨⟨enomem, track.out, []⟩, ?_, rfl, ?_⟩
      · unfold Op.need at hgrow
        simp only [hgrow]
      · simp [Op.breaksOff, Op.parts, hempty, hgrow, h]
  | some grown =>
      obtain ⟨frames, rfl, hneed⟩ := Out.grow_some hgrow
      obtain ⟨rest, hrest, hmean, hcount⟩ := putRest_follows (h.follows.grown frames) hratio (by
        intro hsome
        simp only [Op.need, scoPcmPacketFrames, if_neg hsome] at hneed ⊢
        omega)
      have hparts : (Op.tail alloc answers).parts track.out = [.drained] := by
        simp [Op.parts, hempty, hgrow]
      generalize hpad : (Op.tail alloc answers).need track.out = size at *
      have hsize : (track.out.scoStaged.length + rest.length + 29) / 30 * 30 = size := by
        rw [← hpad, hcount]
        simp [Op.need, scoPcmPacketFrames]
      have hlawful := h.follows.length
      have hpackets := h.packets
      let filled : Out := { track.out with
        scoBufFrames := frames
        scoStaged := track.out.scoStaged ++ rest ++
          List.replicate (size - (track.out.scoStaged ++ rest).length) 0
        scoAcc := 0
        scoAccN := 0 }
      have hwhole : Follows track.sent
          (wholeOf filled.ratio (track.taken ++ [Part.drained])) filled := by
        rw [wholeOf_append]
        refine ⟨?_, by simp [Whole.next, filled], by simp [Whole.next, filled],
          by simp [Whole.next]⟩
        have hsamples := h.follows.samples
        have hlen := congrArg List.length hmean
        simp only [List.length_map] at hlen
        have hzeros : size - (track.out.scoStaged ++ rest).length =
            (((wholeOf track.out.ratio track.taken).samples track.out.ratio ++
              restMean track.out.ratio (wholeOf track.out.ratio track.taken).monos).length + 29) /
              30 * 30 -
            ((wholeOf track.out.ratio track.taken).samples track.out.ratio ++
              restMean track.out.ratio (wholeOf track.out.ratio track.taken).monos).length := by
          -- what was sent is whole packets, so the stream is filled up as its end is
          simp only [List.length_append, ← hlen, ← hsamples, List.length_map]
          omega
        simp only [Whole.next, Whole.samples, padded, filled, means, groups_nil, List.map_nil,
          List.append_nil]
        rw [hzeros]
        simp only [← List.append_assoc, List.map_append, List.map_replicate, hmean]
        rw [← List.map_append, hsamples]
        rfl
      obtain ⟨hkept, hiff⟩ := flush_lawful answers size hwhole hpackets (by
        simp only [filled, scoPcmPacketFrames, List.length_append, List.length_replicate]
        omega)
      refine ⟨scoOutFlush filled answers, ?_, by rw [hkept], ?_⟩
      · unfold Op.need at hpad
        simp only [hpad, hgrow, hrest]
        rfl
      · rw [hparts, hiff]
        simp [Op.breaksOff, hparts, Op.answers, Op.offers, hpad]

/-! ### Runs -/

/-- The ratios that a call opens the device at. -/
def Op.Fits : Op → Prop
  | .reopen ratio => PlayRatio ratio
  | _ => True

/-- **One call**: nothing traps, and the stream goes on following its whole unless the transfer
breaks off. -/
theorem step_lawful (h : Lawful track) (hratio : PlayRatio track.out.ratio) (op : Op)
    (hop : op.Fits) :
    ∃ track', track.step op = .ok track' ∧ PlayRatio track'.out.ratio ∧
      (Lawful track' ↔ op.breaksOff track.out = false) := by
  cases op with
  | write buffer =>
      obtain ⟨result, hrun, hsame, hiff⟩ := write_lawful h hratio buffer
      refine ⟨⟨result.out, track.sent ++ result.sent,
        track.taken ++ (Op.write buffer).parts track.out⟩, ?_, by rwa [← hsame] at hratio, hiff⟩
      simp only [Track.step, Op.apply, hrun]
      rfl
  | tail alloc answers =>
      obtain ⟨result, hrun, hsame, hiff⟩ := tail_lawful h hratio alloc answers
      refine ⟨⟨result.out, track.sent ++ result.sent,
        track.taken ++ (Op.tail alloc answers).parts track.out⟩, ?_, by rwa [← hsame] at hratio,
        hiff⟩
      simp only [Track.step, Op.apply, hrun]
      rfl
  | stop =>
      refine ⟨⟨track.out.discard, [], []⟩, rfl, hratio, ?_⟩
      simpa [Op.breaksOff, Op.parts, Out.discard] using lawful_empty _ _
  | reopen ratio =>
      refine ⟨⟨{ track.out.discard with ratio := ratio }, [], []⟩, rfl, hop, ?_⟩
      simpa [Op.breaksOff, Op.parts, Out.discard] using lawful_empty _ _

/-- In a run of calls nothing traps, and the stream follows its whole before and after each. -/
def LawfulRun : Track → List Op → Prop
  | track, [] => Lawful track
  | track, op :: ops => Lawful track ∧ ∃ track', track.step op = .ok track' ∧ LawfulRun track' ops

/-- No transfer of the run breaks off. -/
def cleanRun : Track → List Op → Bool
  | _, [] => true
  | track, op :: ops =>
      !op.breaksOff track.out &&
        match track.step op with
        | .ok track' => cleanRun track' ops
        | .error _ => true

theorem LawfulRun.head {ops : List Op} (h : LawfulRun track ops) : Lawful track := by
  cases ops with
  | nil => exact h
  | cons op ops => exact h.1

theorem lawfulRun_iff (ops : List Op) (h : Lawful track) (hratio : PlayRatio track.out.ratio)
    (hops : ∀ op ∈ ops, op.Fits) : LawfulRun track ops ↔ cleanRun track ops = true := by
  induction ops generalizing track with
  | nil => exact ⟨fun _ => rfl, fun _ => h⟩
  | cons op ops ih =>
      obtain ⟨track₁, hstep, hratio₁, hiff⟩ := step_lawful h hratio op (hops op List.mem_cons_self)
      have htail : ∀ op ∈ ops, op.Fits := fun op hop => hops op (List.mem_cons_of_mem _ hop)
      have hclean : cleanRun track (op :: ops) = true ↔
          op.breaksOff track.out = false ∧ cleanRun track₁ ops = true := by
        simp [cleanRun, hstep]
      rw [hclean]
      constructor
      · rintro ⟨-, track', hrun, hlater⟩
        obtain rfl : track₁ = track' := by
          rw [hstep] at hrun
          exact Except.ok.inj hrun
        exact ⟨hiff.mp hlater.head, (ih hlater.head hratio₁ htail).mp hlater⟩
      · rintro ⟨hkeeps, hlater⟩
        have hlawful := hiff.mpr hkeeps
        exact ⟨h, track₁, hstep, (ih hlawful hratio₁ htail).mpr hlater⟩

/-! ### Wider ratios -/

/-- As loud a frame as there is. -/
def loud : Frame := ⟨-32768, none⟩

theorem mean_loud : loud.mean = -32768 := by decide

/-- Frames that do not fill a group only add up. -/
theorem convert_loud (ratio n : Nat) {limit frames : Nat} (hlimit : limit = 65536) (hn : n ≤ limit)
    (hratio : limit < ratio) :
    (List.replicate n loud).foldlM convertFrame ⟨ratio, [], frames, 0, 0⟩ =
      .ok ⟨ratio, [], frames, n * loud.mean, n⟩ := by
  induction n with
  | zero => simp [pure, Except.pure]
  | succ n ih =>
      have hsum : int32 (n * loud.mean + loud.mean) = .ok ((n + 1 : Nat) * loud.mean) := by
        have hvalue : n * loud.mean + loud.mean = (n + 1 : Nat) * loud.mean := by
          rw [mean_loud]
          omega
        rw [hvalue, int32_eq_ok (by rw [mean_loud]; omega)]
      have hpart : n + 1 ≠ ratio := by omega
      rw [List.replicate_succ', List.foldlM_append, ih (by omega)]
      simp [bind, Except.bind, convertFrame, mono_eq, hsum, hpart, pure, Except.pure]

/-- **The accumulator is not wide enough for any other ratio.** -/
theorem write_overflows {ratio n : Nat} (hn : n = 65536) (hratio : n < ratio) :
    outWrite (opened ratio) ⟨List.replicate (n + 1) loud, none, true, true, []⟩ =
      .error .overflow := by
  have hsum : int32 (n * loud.mean + loud.mean) = .error .overflow := by
    rw [mean_loud, int32, if_neg (by omega)]
  have hrun : (List.replicate (n + 1) loud).foldlM convertFrame
      ⟨ratio, [], (n + 1) / ratio + 1, 0, 0⟩ = .error .overflow := by
    rw [List.replicate_succ', List.foldlM_append, convert_loud ratio n hn (Nat.le_refl _) hratio]
    simp only [List.foldlM_cons, bind, Except.bind, convertFrame, mono_eq, hsum]
  have hconvert : scoOutConvert (opened ratio) (List.replicate (n + 1) loud) true =
      .error .overflow := by
    have hgrow : (opened ratio).grow ((n + 1) / ratio + 1) true =
        some ⟨ratio, [], (n + 1) / ratio + 1, 0, 0⟩ := by
      simp [Out.grow, opened]
    have hneed : (opened ratio).scoStaged.length + (List.replicate (n + 1) loud).length /
        (opened ratio).ratio + 1 = (n + 1) / ratio + 1 := by
      simp [opened]
    simp only [scoOutConvert, hneed, hgrow, hrun]
    rfl
  have hsome : List.replicate (n + 1) loud ≠ [] := by simp [List.replicate_succ]
  simp only [outWrite, if_neg hsome, Buffer.played, hconvert]
  rfl

end Mindone.Audio.Sco
