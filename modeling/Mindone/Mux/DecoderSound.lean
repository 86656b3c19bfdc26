import Mindone.Mux.Scanner

/-!
# Mindone.Mux.DecoderSound

The decoder **refines the reference scanner**. The window of the buffer is the
scanner's input; one `next_frame` takes the scanner's steps up to the next
frame or up to a wait (`scanLoop_spec`), so draining the decoder after a push is
one scanner run (`drain_spec`), and feeding chunks is reading the whole stream
(`feed_spec`).
-/

namespace Mindone.Mux

open Mindone.Lib

/-! ### The loops of one scan -/

section Scan

variable {buffer : List UInt8} {length limit : Nat}

variable (limit) in
/-- Skipping noise takes one scanner step per byte. -/
theorem skipNoise_spec (hbuf : length ≤ buffer.length) (index : Nat) (stats : DecodeStats) :
    ∃ tokens, (scanner limit).Steps (slice buffer index length) tokens
        (slice buffer (skipNoise buffer length index stats).1 length) ∧
      frames tokens = [] ∧
      (skipNoise buffer length index stats).2 = countTokens stats tokens ∧
      ((skipNoise buffer length index stats).1 < length →
        buffer.getD (skipNoise buffer length index stats).1 0 = flag) := by
  fun_induction skipNoise buffer length index stats with
  | case1 index stats h ih =>
      obtain ⟨tokens, hsteps, hframes, hstats, hstop⟩ := ih
      have hwindow := slice_eq_cons h.1 hbuf (0 : UInt8)
      have hstep : (scanner limit).step (slice buffer index length) = some ([.noise], 1) := by
        rw [hwindow]
        simp only [scanner, scanStep, h.2, if_false]
      have hdrop : (slice buffer index length).drop 1 = slice buffer (index + 1) length :=
        slice_drop ..
      refine ⟨[.noise] ++ tokens, .step hstep (by rwa [hdrop]), ?_, ?_, hstop⟩
      · rw [frames_append, hframes]
        rfl
      · rw [hstats, countTokens_append]
        rfl
  | case2 index stats h =>
      refine ⟨[], .refl _, rfl, rfl, fun hlt => ?_⟩
      by_contra hne
      exact h ⟨hlt, hne⟩

variable (limit) in
/-- Skipping a run of flags takes one silent step per flag. -/
theorem skipFlags_spec (hbuf : length ≤ buffer.length) (index : Nat)
    (hflag : index < length → buffer.getD index 0 = flag) :
    (scanner limit).Steps (slice buffer index length) []
        (slice buffer (skipFlags buffer length index) length) ∧
      (skipFlags buffer length index < length →
        buffer.getD (skipFlags buffer length index) 0 = flag) ∧
      (skipFlags buffer length index + 1 < length →
        buffer.getD (skipFlags buffer length index + 1) 0 ≠ flag) := by
  fun_induction skipFlags buffer length index with
  | case1 index h ih =>
      obtain ⟨hsteps, hhere, hnext⟩ := ih fun _ => h.2
      have hwindow : slice buffer index length = flag :: flag :: slice buffer (index + 2) length := by
        rw [slice_eq_cons (by omega : index < length) hbuf 0, slice_eq_cons h.1 hbuf 0,
          hflag (by omega), h.2]
      have hstep : (scanner limit).step (slice buffer index length) = some ([], 1) := by
        rw [hwindow]
        simp [scanner, scanStep, afterFlag]
      have hdrop : (slice buffer index length).drop 1 = slice buffer (index + 1) length :=
        slice_drop ..
      exact ⟨.step hstep (by rwa [hdrop]), hhere, hnext⟩
  | case2 index h =>
      refine ⟨.refl _, hflag, fun hlt heq => h ⟨hlt, heq⟩⟩

/-- What a verdict at `index` is for the scanner. -/
def Verdict.step (index : Nat) : Verdict → Option (List Token × Nat)
  | .incomplete => none
  | .oversized => some ([.oversized], 1)
  | .badChecksum => some ([.badChecksum], 1)
  | .missingClosingFlag => some ([.missingClosingFlag], 1)
  | .accepted frame closing => some ([.frame frame], closing - index)

/-- The decoder takes the candidate that the scanner takes. -/
theorem judgeBody_step (hbuf : length ≤ buffer.length) {index size headerLength : Nat}
    (hheader : index + 1 + headerLength ≤ length) (hsize : size ≤ limit) :
    (judgeBody buffer length (index + 1) size headerLength).step index =
      takeCandidate limit (buffer.getD (index + 1) 0) (buffer.getD (index + 2) 0) size
        (slice buffer (index + 1) (index + 1 + headerLength))
        (slice buffer (index + 1 + headerLength) length) := by
  have hrest : (slice buffer (index + 1 + headerLength) length).length =
      length - (index + 1 + headerLength) := slice_length hbuf
  have hhdr : (slice buffer (index + 1) (index + 1 + headerLength)).length = headerLength := by
    rw [slice_length (by omega)]
    omega
  have hcontrol : index + 1 + 1 = index + 2 := rfl
  unfold judgeBody takeCandidate
  rw [if_neg (by omega : ¬ size > limit), hrest]
  by_cases hshort : index + 1 + headerLength + size + 1 ≥ length
  · have hshort' : length - (index + 1 + headerLength) < size + 2 := by omega
    rw [if_pos hshort, if_pos hshort']
    rfl
  · have hlong : ¬ length - (index + 1 + headerLength) < size + 2 := by omega
    have hpayload : (slice buffer (index + 1 + headerLength) length).take size =
        slice buffer (index + 1 + headerLength) (index + 1 + headerLength + size) :=
      slice_take (by omega)
    have hget : ∀ k, k < size + 2 →
        (slice buffer (index + 1 + headerLength) length).getD k 0 =
          buffer.getD (index + 1 + headerLength + k) 0 := by
      intro k hk
      simp only [List.getD_eq_getElem?_getD]
      rw [slice_getElem? (by omega)]
    have hclosing : index + 1 + headerLength + size + 1 - index = headerLength + size + 2 := by
      omega
    rw [if_neg hshort, if_neg hlong, hpayload, hget size (by omega),
      hget (size + 1) (by omega), hhdr, hcontrol]
    rw [apply_ite (Verdict.step index), apply_ite (Verdict.step index)]
    simp only [Verdict.step, hclosing, ← Nat.add_assoc]

/-- A complete length field lies inside the window. -/
theorem sizeField_le {start size headerLength : Nat}
    (h : sizeField buffer length start = some (size, headerLength)) (hstart : start + 3 ≤ length) :
    start + headerLength ≤ length := by
  unfold sizeField at h
  dsimp only at h
  split at h
  · split at h
    · cases h
    · cases h
      omega
  · cases h
    exact hstart

/-- The scanner splits the window where the index code reads its header. -/
theorem splitHeader_slice (hbuf : length ≤ buffer.length) {index : Nat}
    (hlen : index + 4 ≤ length) :
    splitHeader (buffer.getD (index + 1) 0) (buffer.getD (index + 2) 0)
        (buffer.getD (index + 3) 0) (slice buffer (index + 4) length) =
      (sizeField buffer length (index + 1)).map fun (size, headerLength) =>
        (size, slice buffer (index + 1) (index + 1 + headerLength),
          slice buffer (index + 1 + headerLength) length) := by
  have hthree : slice buffer (index + 1) (index + 4) =
      [buffer.getD (index + 1) 0, buffer.getD (index + 2) 0, buffer.getD (index + 3) 0] := by
    rw [slice_eq_cons (by omega) (by omega) 0, slice_eq_cons (by omega) (by omega) 0,
      slice_eq_cons (by omega) (by omega) 0, slice_self]
  unfold splitHeader sizeField
  simp only [show index + 1 + 2 = index + 3 from rfl, show index + 1 + 3 = index + 4 from rfl]
  by_cases hext : buffer.getD (index + 3) 0 &&& 1 = 0
  · rw [if_pos hext, if_pos hext]
    by_cases hfifth : length - (index + 1) < 4
    · have hempty : slice buffer (index + 4) length = [] := by
        rw [show index + 4 = length by omega, slice_self]
      rw [if_pos hfifth, hempty]
      rfl
    · have hfour : slice buffer (index + 1) (index + 5) =
          [buffer.getD (index + 1) 0, buffer.getD (index + 2) 0, buffer.getD (index + 3) 0,
            buffer.getD (index + 4) 0] := by
        rw [slice_eq_cons (by omega) (by omega) 0, slice_eq_cons (by omega) (by omega) 0,
          slice_eq_cons (by omega) (by omega) 0, slice_eq_cons (by omega) (by omega) 0,
          slice_self]
      rw [if_neg hfifth, slice_eq_cons (by omega) hbuf 0]
      simp only [Option.map_some, show index + 1 + 4 = index + 5 from rfl, hfour]
  · rw [if_neg hext, if_neg hext]
    simp only [Option.map_some, show index + 1 + 3 = index + 4 from rfl, hthree]

/-- With fewer than four bytes behind a lone flag the scanner waits. -/
theorem scanStep_short {xs : List UInt8} (hlen : xs.length < 4)
    (hflag : ∀ b, xs[0]? = some b → b = flag) (hnext : ∀ b, xs[1]? = some b → b ≠ flag) :
    scanStep limit xs = none := by
  match xs with
  | [] => rfl
  | [a] => simp [scanStep, afterFlag, hflag a rfl]
  | [a, b] => simp [scanStep, afterFlag, hflag a rfl, hnext b rfl]
  | [a, b, c] => simp [scanStep, afterFlag, hflag a rfl, hnext b rfl]
  | a :: b :: c :: d :: rest =>
      simp at hlen
      omega

/-- The verdict on the candidate behind a flag is the scanner's step there. -/
theorem judge_step (hbuf : length ≤ buffer.length) {index : Nat} (hindex : index ≤ length)
    (hflag : index < length → buffer.getD index 0 = flag)
    (hnext : index + 1 < length → buffer.getD (index + 1) 0 ≠ flag) :
    (judge buffer length limit index).step index =
      (scanner limit).step (slice buffer index length) := by
  have hwindow : (slice buffer index length).length = length - index := slice_length hbuf
  by_cases hshort : length - index < 4
  · rw [judge_of_short _ _ _ hshort]
    refine (scanStep_short (by omega) ?_ ?_).symm
    · intro b hb
      have hlt : index < length := by
        have := (List.getElem?_eq_some_iff.mp hb).1
        omega
      rw [slice_getElem? (by omega)] at hb
      have := hflag hlt
      rw [List.getD_eq_getElem?_getD, ← Nat.add_zero index, hb] at this
      exact this
    · intro b hb
      have hlt : index + 1 < length := by
        have := (List.getElem?_eq_some_iff.mp hb).1
        omega
      rw [slice_getElem? (by omega)] at hb
      have := hnext hlt
      rw [List.getD_eq_getElem?_getD, hb] at this
      exact this
  · -- the four bytes the header starts with
    have hbytes : slice buffer index length =
        flag :: buffer.getD (index + 1) 0 :: buffer.getD (index + 2) 0 ::
          buffer.getD (index + 3) 0 :: slice buffer (index + 4) length := by
      rw [slice_eq_cons (by omega) hbuf 0, slice_eq_cons (by omega) hbuf 0,
        slice_eq_cons (by omega) hbuf 0, slice_eq_cons (by omega) hbuf 0, hflag (by omega)]
    have hsplit : splitHeader (buffer.getD (index + 1) 0) (buffer.getD (index + 2) 0)
        (buffer.getD (index + 3) 0) (slice buffer (index + 4) length) =
        (sizeField buffer length (index + 1)).map fun (size, headerLength) =>
          (size, slice buffer (index + 1) (index + 1 + headerLength),
            slice buffer (index + 1 + headerLength) length) :=
      splitHeader_slice hbuf (by omega)
    rw [hbytes]
    simp only [scanner, scanStep, afterFlag, if_true, hnext (by omega), if_false, hsplit,
      judge, hshort]
    cases hfield : sizeField buffer length (index + 1) with
    | none => rfl
    | some field =>
        obtain ⟨size, headerLength⟩ := field
        have hend := sizeField_le hfield (by omega)
        simp only [Option.map_some, Option.bind_some]
        by_cases hsize : size > limit
        · simp only [if_pos hsize, takeCandidate, Verdict.step]
        · rw [if_neg hsize]
          exact judgeBody_step hbuf hend (by omega)

variable (limit) in
/-- Steps to the flag of the next candidate: the first two loops together. -/
theorem skip_spec (hbuf : length ≤ buffer.length) {index : Nat} (hindex : index ≤ length)
    (stats : DecodeStats) :
    let skipped := skipNoise buffer length index stats
    let here := skipFlags buffer length skipped.1
    ∃ tokens, (scanner limit).Steps (slice buffer index length) tokens
        (slice buffer here length) ∧
      frames tokens = [] ∧ skipped.2 = countTokens stats tokens ∧
      (judge buffer length limit here).step here =
        (scanner limit).step (slice buffer here length) := by
  intro skipped here
  obtain ⟨tokens, hsteps, hframes, hstats, hstop⟩ :=
    skipNoise_spec limit hbuf index stats
  obtain ⟨hflags, hhere, hnext⟩ := skipFlags_spec limit hbuf skipped.1 hstop
  have hle : here ≤ length := skipFlags_le_length _ _ (skipNoise_le_length _ _ _ hindex)
  refine ⟨tokens, ?_, hframes, hstats, judge_step hbuf hle hhere hnext⟩
  simpa using hsteps.trans hflags

/-- What a scan from `index` must have done: the scanner's steps up to a frame,
or up to a wait when there is none. -/
def ScanSpec (buffer : List UInt8) (length limit index : Nat) (stats : DecodeStats)
    (r : ScanResult) : Prop :=
  ∃ tokens, (scanner limit).Steps (slice buffer index length)
      (tokens ++ r.frame.toList.map .frame) (slice buffer r.consumed length) ∧
    frames tokens = [] ∧ r.stats = countTokens stats tokens ∧
    (r.frame = none → (scanner limit).step (slice buffer r.consumed length) = none)

/-- A rejected candidate costs one byte, and the scan goes on behind its flag. -/
theorem ScanSpec.reject {index here : Nat} {stats : DecodeStats} {before : List Token}
    {token : Token} {r : ScanResult}
    (hbefore : (scanner limit).Steps (slice buffer index length) before (slice buffer here length))
    (hframes : frames before = []) (htoken : token.frame? = none)
    (hstep : (scanner limit).step (slice buffer here length) = some ([token], 1))
    (h : ScanSpec buffer length limit (here + 1) (token.count (countTokens stats before)) r) :
    ScanSpec buffer length limit index stats r := by
  obtain ⟨tokens, hsteps, htokens, hstats, hwait⟩ := h
  have hdrop : (slice buffer here length).drop 1 = slice buffer (here + 1) length :=
    slice_drop ..
  refine ⟨before ++ [token] ++ tokens, ?_, ?_, ?_, hwait⟩
  · rw [List.append_assoc, List.append_assoc]
    exact hbefore.trans (.step hstep (by rwa [hdrop]))
  · simp only [frames_append, hframes, htokens]
    simp [frames, htoken]
  · rw [hstats, countTokens_append, countTokens_append]
    rfl

/-- **One scan takes the scanner's steps** up to the next frame, or up to a
wait when there is none. -/
theorem scanLoop_spec (hbuf : length ≤ buffer.length) {index : Nat} (hindex : index ≤ length)
    (stats : DecodeStats) :
    ScanSpec buffer length limit index stats (scanLoop buffer length limit index stats) := by
  fun_induction scanLoop buffer length limit index stats with
  | case1 index stats skipped here seen hj =>
      obtain ⟨tokens, hsteps, hframes, hstats, hstep⟩ := skip_spec limit hbuf hindex stats
      rw [hj] at hstep
      exact ⟨tokens, by simpa using hsteps, hframes, hstats, fun _ => hstep.symm⟩
  | case2 index stats skipped here seen hj ih
  | case3 index stats skipped here seen hj ih
  | case4 index stats skipped here seen hj ih =>
      obtain ⟨tokens, hsteps, hframes, hstats, hstep⟩ := skip_spec limit hbuf hindex stats
      rw [hj] at hstep
      have hlt : here < length := Nat.lt_of_not_le fun hge => by
        rw [judge_of_short buffer length limit (by omega)] at hj
        cases hj
      have hseen : seen = countTokens stats tokens := hstats
      rw [hseen] at ih ⊢
      exact ScanSpec.reject hsteps hframes rfl hstep.symm (ih hlt)
  | case5 index stats skipped here seen frame closing hj =>
      obtain ⟨tokens, hsteps, hframes, hstats, hstep⟩ := skip_spec limit hbuf hindex stats
      rw [hj] at hstep
      have hlt := (judge_accepted_lt _ _ _ hj).1
      have hdrop : (slice buffer here length).drop (closing - here) =
          slice buffer closing length := by
        rw [slice_drop]
        congr 1
        omega
      refine ⟨tokens, ?_, hframes, hstats, fun h => by cases h⟩
      exact hsteps.trans (hdrop ▸ Lexer.Steps.single hstep.symm)

end Scan

/-! ### Draining the decoder -/

namespace Decoder

variable {capacity : Nat}

theorem length_le_buffer (d : Decoder capacity) : d.length ≤ d.buffer.length := by
  rw [d.buffer_length]
  exact d.length_le

/-- `next_frame` in terms of the buffered bytes. -/
theorem nextFrame_spec (d : Decoder capacity) :
    ∃ tokens, (scanner d.limit).Steps d.buffered
        (tokens ++ d.nextFrame.1.toList.map .frame) d.nextFrame.2.buffered ∧
      frames tokens = [] ∧ d.nextFrame.2.stats = countTokens d.stats tokens ∧
      (d.nextFrame.1 = none → (scanner d.limit).step d.nextFrame.2.buffered = none) :=
  scanLoop_spec d.length_le_buffer d.consumed_le d.stats

/-- **Draining is one scanner run** over the buffered bytes. -/
theorem drain_spec (d : Decoder capacity) :
    d.drain.1 = frames ((scanner d.limit).run d.buffered).1 ∧
      d.drain.2.buffered = ((scanner d.limit).run d.buffered).2 ∧
      d.drain.2.stats = countTokens d.stats ((scanner d.limit).run d.buffered).1 ∧
      d.drain.2.limit = d.limit := by
  fun_induction drain d with
  | case1 d d' h =>
      obtain ⟨tokens, hsteps, hframes, hstats, hwait⟩ := d.nextFrame_spec
      simp only [h] at hsteps hstats hwait
      have hlimit : d'.limit = d.limit := congrArg (fun r => r.2.limit) h.symm
      rw [hsteps.run_eq, (scanner d.limit).run_of_step_none (hwait trivial)]
      exact ⟨by simpa using hframes.symm, rfl, by simpa using hstats, hlimit⟩
  | case2 d frame d' h r ih =>
      obtain ⟨tokens, hsteps, hframes, hstats, -⟩ := d.nextFrame_spec
      simp only [h] at hsteps hstats
      have hlimit : d'.limit = d.limit := congrArg (fun r => r.2.limit) h.symm
      rw [hlimit] at ih
      obtain ⟨hout, hrest, hcount, hsame⟩ := ih
      rw [hsteps.run_eq]
      refine ⟨?_, hrest, ?_, hsame⟩
      · simp only [r, hout, frames_append, hframes]
        rfl
      · simp only [r, hcount, hstats, countTokens_append]
        rfl

/-- `push` appends to the buffered bytes and changes nothing else. -/
theorem push_spec {d d' : Decoder capacity} {bytes : List UInt8} (h : d.push bytes = .ok d') :
    d'.buffered = d.buffered ++ bytes ∧ d'.stats = d.stats ∧ d'.limit = d.limit := by
  unfold push at h
  split at h
  · cases h
  · cases h
    refine ⟨?_, rfl, rfl⟩
    have hmoved := copyToFront_length d.consumed_le d.length_le_buffer
    have hle := d.length_le_buffer
    simp only [buffered]
    rw [slice_blit (Nat.zero_le _) (by omega), slice_copyToFront d.length_le_buffer]

/-- **Feeding chunks is the scanner's feed.** -/
theorem feed_spec {d d' : Decoder capacity} {chunks : List (List UInt8)} {out : List Frame}
    (h : d.feed chunks = .ok (out, d')) :
    out = frames ((scanner d.limit).feed d.buffered chunks).1 ∧
      d'.buffered = ((scanner d.limit).feed d.buffered chunks).2 ∧
      d'.stats = countTokens d.stats ((scanner d.limit).feed d.buffered chunks).1 := by
  induction chunks generalizing d out with
  | nil =>
      cases h
      exact ⟨rfl, rfl, rfl⟩
  | cons chunk chunks ih =>
      simp only [feed, bind, Except.bind, pure, Except.pure] at h
      split at h
      · cases h
      · rename_i pushed hpush
        split at h
        · cases h
        · rename_i rest hrest
          cases h
          obtain ⟨hbuf, hstats, hlimit⟩ := push_spec hpush
          obtain ⟨hout, hleft, hcount, hsame⟩ := pushed.drain_spec
          obtain ⟨hout', hleft', hcount'⟩ := ih hrest
          rw [hsame, hlimit, hleft, hlimit, hbuf] at hout' hleft' hcount'
          rw [hlimit, hbuf] at hout hcount
          simp only [Lexer.feed, frames_append, countTokens_append]
          exact ⟨by rw [hout, hout'], hleft', by rw [hcount', hcount, hstats]⟩

/-- A drained decoder holds less than one frame of the largest size. -/
theorem drain_buffered_le (d : Decoder capacity) :
    d.drain.2.buffered.length ≤ d.limit + 6 := by
  rw [d.drain_spec.2.1]
  exact scanStep_none_length ((scanner d.limit).step_run_rest d.buffered)

theorem push_ok {d : Decoder capacity} (bytes : List UInt8)
    (h : bytes.length ≤ d.availableCapacity) : ∃ d', d.push bytes = .ok d' := by
  unfold push
  rw [dif_neg (by omega)]
  exact ⟨_, rfl⟩

/-- Chunks no longer than what is free behind an incomplete frame always fit. -/
theorem feed_ok {d : Decoder capacity} (chunks : List (List UInt8))
    (hwait : d.buffered.length ≤ d.limit + 6)
    (h : ∀ chunk ∈ chunks, d.limit + 6 + chunk.length ≤ capacity) :
    ∃ out d', d.feed chunks = .ok (out, d') := by
  induction chunks generalizing d with
  | nil => exact ⟨[], d, rfl⟩
  | cons chunk chunks ih =>
      have hchunk := h chunk (List.mem_cons_self ..)
      obtain ⟨pushed, hpush⟩ := push_ok (d := d) chunk (by
        unfold availableCapacity
        omega)
      have hlimit : pushed.limit = d.limit := (push_spec hpush).2.2
      have hsame : pushed.drain.2.limit = d.limit := by rw [pushed.drain_spec.2.2.2, hlimit]
      obtain ⟨out, d', hfeed⟩ := ih (d := pushed.drain.2)
        (by rw [hsame, ← hlimit]; exact pushed.drain_buffered_le)
        (fun c hc => by rw [hsame]; exact h c (List.mem_cons_of_mem _ hc))
      refine ⟨pushed.drain.1 ++ out, d', ?_⟩
      simp only [feed, hpush, bind, Except.bind, hfeed, pure, Except.pure]

variable (capacity) in
theorem new_ok {limit : Nat} (hlimit : ValidLimit limit) (hfits : limit + maxOverhead ≤ capacity) :
    ∃ d : Decoder capacity, new limit = .ok d ∧ d.buffered = [] ∧ d.stats = {} ∧
      d.limit = limit := by
  unfold new
  rw [dif_pos hlimit, dif_pos hfits]
  exact ⟨_, rfl, slice_self _ _, rfl, rfl⟩

theorem new_spec {limit : Nat} {d : Decoder capacity} (h : new limit = .ok d) :
    d.buffered = [] ∧ d.stats = {} ∧ d.limit = limit := by
  unfold new at h
  split at h
  · split at h
    · cases h
      exact ⟨slice_self _ _, rfl, rfl⟩
    · cases h
  · cases h

end Decoder

/-! ### The wire round trip -/

/-- The encoded frames with every opening flag but the first left out. -/
def encodedShared (limit : Nat) : List Frame → List UInt8
  | [] => []
  | f :: fs => encoded limit f ++ fs.flatMap fun g => (encoded limit g).drop 1

/-- Built by `Frame::command`, with a payload within the limit. -/
def Commanded (limit : Nat) (frame : Frame) : Prop :=
  ∃ channel control payload, Frame.command channel control payload = .ok frame ∧
    payload.length ≤ limit

theorem Commanded.sendable {limit : Nat} {frame : Frame} (h : Commanded limit frame) :
    Sendable limit frame := by
  obtain ⟨channel, control, payload, hok, hlen⟩ := h
  refine ⟨command_address_ne_flag hok, ?_⟩
  unfold Frame.command at hok
  split at hok
  · cases hok
  · cases hok
    exact hlen

theorem flatMap_encoded {limit : Nat} (hlimit : ValidLimit limit) {fs : List Frame}
    (h : ∀ f ∈ fs, Sendable limit f) : fs.flatMap (encoded limit) = fs.flatMap Frame.wire :=
  List.flatMap_congr fun f hf => encoded_eq_wire hlimit (h f hf).2

theorem encodedShared_cons {limit : Nat} (hlimit : ValidLimit limit) {f : Frame} {fs : List Frame}
    (h : ∀ g ∈ f :: fs, Sendable limit g) :
    encodedShared limit (f :: fs) = f.wire ++ fs.flatMap Frame.body := by
  have hbody : (fs.flatMap fun g => (encoded limit g).drop 1) = fs.flatMap Frame.body := by
    refine List.flatMap_congr fun g hg => ?_
    rw [encoded_eq_wire hlimit (h g (List.mem_cons_of_mem _ hg)).2]
    rfl
  rw [encodedShared, hbody, encoded_eq_wire hlimit (h f (List.mem_cons_self ..)).2]

/-- The scanner's tokens for a stream of encoded frames, with or without the
opening flags after the first. -/
theorem run_encoded {limit : Nat} (hlimit : ValidLimit limit) {fs : List Frame}
    (h : ∀ f ∈ fs, Sendable limit f) {stream : List UInt8}
    (hstream : stream = fs.flatMap (encoded limit) ∨ stream = encodedShared limit fs) :
    ((scanner limit).run stream).1 = fs.map .frame := by
  rcases hstream with rfl | rfl
  · rw [flatMap_encoded hlimit h, run_frames hlimit h]
  · cases fs with
    | nil => rfl
    | cons f fs => rw [encodedShared_cons hlimit h, run_shared_frames hlimit h]

/-- A decoder fresh from `new` that is fed some chunks has run the scanner over
their concatenation. -/
theorem Decoder.feed_new {capacity limit : Nat} {d d' : Decoder capacity}
    (hnew : Decoder.new limit = .ok d) {chunks : List (List UInt8)} {out : List Frame}
    (hfeed : d.feed chunks = .ok (out, d')) :
    out = frames ((scanner limit).run chunks.flatten).1 ∧
      d'.buffered = ((scanner limit).run chunks.flatten).2 ∧
      d'.stats = countTokens {} ((scanner limit).run chunks.flatten).1 := by
  obtain ⟨hbuf, hstats, hlimit⟩ := new_spec hnew
  have h := feed_spec hfeed
  rw [hbuf, hlimit, hstats, Lexer.feed_eq_run _ (Lexer.step_nil _), List.nil_append] at h
  exact h

theorem Decoder.new_limit_valid {capacity limit : Nat} {d : Decoder capacity}
    (hnew : Decoder.new limit = .ok d) : ValidLimit limit :=
  (new_spec hnew).2.2 ▸ d.limit_valid

/-- **Wire round trip under any fragmentation.** However the encoded frames are
cut into chunks that fit, the decoder returns exactly these frames in order and
counts nothing; the same with shared flags. -/
theorem feed_round_trip {capacity limit : Nat} {d d' : Decoder capacity} {fs out : List Frame}
    {chunks : List (List UInt8)} (hnew : Decoder.new limit = .ok d)
    (hfs : ∀ f ∈ fs, Commanded limit f) (hfeed : d.feed chunks = .ok (out, d'))
    (hcut : chunks.flatten = fs.flatMap (encoded limit) ∨
      chunks.flatten = encodedShared limit fs) :
    out = fs ∧ d'.stats = {} := by
  have hrun := run_encoded (Decoder.new_limit_valid hnew) (fun f hf => (hfs f hf).sendable) hcut
  obtain ⟨hout, -, hstats⟩ := Decoder.feed_new hnew hfeed
  rw [hrun] at hout hstats
  exact ⟨by simpa using hout, by simpa using hstats⟩

/-- Two frames of one flag byte each, cut inside the first header. -/
theorem feed_round_trip_flag_payloads :
    ∃ (d d' : Decoder 16) (out : List Frame),
      Decoder.new 1 = .ok d ∧
      d.feed [[0xf9, 0x07], [0xef, 0x03, 0xf9, 0xd4, 0xf9], [0xf9, 0x07, 0xef, 0x03, 0xf9],
        [0xd4, 0xf9]] = .ok (out, d') ∧
      out = [⟨0x07, 0xef, [0xf9]⟩, ⟨0x07, 0xef, [0xf9]⟩] ∧ d'.stats = {} := by
  obtain ⟨d, hnew, hbuf, -, hlimit⟩ := Decoder.new_ok 16 (show ValidLimit 1 by decide) (by decide)
  obtain ⟨out, d', hfeed⟩ := Decoder.feed_ok (d := d)
    [[0xf9, 0x07], [0xef, 0x03, 0xf9, 0xd4, 0xf9], [0xf9, 0x07, 0xef, 0x03, 0xf9],
      [0xd4, 0xf9]]
    (by simp [hbuf]) (by rw [hlimit]; decide)
  refine ⟨d, d', out, hnew, hfeed, feed_round_trip hnew ?_ hfeed (Or.inl (by decide +kernel))⟩
  intro f hf
  exact ⟨1, 0xef, [0xf9], by simp at hf; subst hf; rfl, by decide⟩

/-- **The decoder is the reference scanner, however its input is cut.** Two
cuttings of one stream give the same frames, the same buffered bytes and the
same counters; the frames are those the scanner accepts in the whole stream; and
a valid frame of the stream is among them, at its own place, unless its opening
flag lies inside an accepted frame or behind that of a candidate that is still
incomplete. -/
theorem feed_chunk_invariant {capacity limit : Nat} {d : Decoder capacity}
    (hnew : Decoder.new limit = .ok d) :
    (∀ (chunks₁ chunks₂ : List (List UInt8)) (out₁ out₂ : List Frame) (d₁ d₂ : Decoder capacity),
      chunks₁.flatten = chunks₂.flatten → d.feed chunks₁ = .ok (out₁, d₁) →
      d.feed chunks₂ = .ok (out₂, d₂) →
      out₁ = out₂ ∧ d₁.buffered = d₂.buffered ∧ d₁.stats = d₂.stats) ∧
    (∀ (chunks : List (List UInt8)) (out : List Frame) (d' : Decoder capacity),
      d.feed chunks = .ok (out, d') →
      out = (accepted limit chunks.flatten).map Accepted.frame) ∧
    (∀ (before after : List UInt8) (frame : Frame), Sendable limit frame →
      let stream := before ++ encoded limit frame ++ after
      let rest := ((scanner limit).run stream).2
      (∃ e ∈ accepted limit stream, e.place = before.length ∧ e.frame = frame) ∨
      (∃ e ∈ accepted limit stream, e.place < before.length ∧ before.length < e.place + e.size) ∨
      (rest.head? = some flag ∧ stream.length - rest.length < before.length)) := by
  refine ⟨?_, ?_, ?_⟩
  · intro chunks₁ chunks₂ out₁ out₂ d₁ d₂ hsame h₁ h₂
    obtain ⟨hout₁, hbuf₁, hstats₁⟩ := Decoder.feed_new hnew h₁
    obtain ⟨hout₂, hbuf₂, hstats₂⟩ := Decoder.feed_new hnew h₂
    rw [hsame] at hout₁ hbuf₁ hstats₁
    exact ⟨hout₁.trans hout₂.symm, hbuf₁.trans hbuf₂.symm, hstats₁.trans hstats₂.symm⟩
  · intro chunks out d' h
    rw [accepted_map_frame]
    exact (Decoder.feed_new hnew h).1
  · intro before after frame hframe
    have hvalid := Decoder.new_limit_valid hnew
    rw [encoded_eq_wire hvalid hframe.2]
    exact accepted_or_overlapped hvalid hframe before after

/-- Noise, a frame with a wrong checksum, then a good one, read in one chunk and
in three. -/
theorem feed_chunk_invariant_noise :
    ∃ (d d₁ d₂ : Decoder 32) (out₁ out₂ : List Frame),
      Decoder.new 1 = .ok d ∧
      d.feed [[0x41, 0xf9, 0x07, 0xef, 0x03, 0xf9, 0xd5, 0xf9, 0x07, 0xef, 0x03, 0xf9, 0xd4, 0xf9]]
        = .ok (out₁, d₁) ∧
      d.feed [[0x41, 0xf9, 0x07], [0xef, 0x03, 0xf9, 0xd5, 0xf9, 0x07, 0xef],
        [0x03, 0xf9, 0xd4, 0xf9]] = .ok (out₂, d₂) ∧
      out₁ = [⟨0x07, 0xef, [0xf9]⟩] ∧ out₁ = out₂ ∧ d₁.buffered = d₂.buffered ∧
      d₁.stats = d₂.stats := by
  obtain ⟨d, hnew, hbuf, -, hlimit⟩ := Decoder.new_ok 32 (show ValidLimit 1 by decide) (by decide)
  obtain ⟨out₁, d₁, h₁⟩ := Decoder.feed_ok (d := d)
    [[0x41, 0xf9, 0x07, 0xef, 0x03, 0xf9, 0xd5, 0xf9, 0x07, 0xef, 0x03, 0xf9, 0xd4,
      0xf9]]
    (by simp [hbuf]) (by rw [hlimit]; decide)
  obtain ⟨out₂, d₂, h₂⟩ := Decoder.feed_ok (d := d)
    [[0x41, 0xf9, 0x07], [0xef, 0x03, 0xf9, 0xd5, 0xf9, 0x07, 0xef],
      [0x03, 0xf9, 0xd4, 0xf9]]
    (by simp [hbuf]) (by rw [hlimit]; decide)
  obtain ⟨hsame, hscan, -⟩ := feed_chunk_invariant hnew
  refine ⟨d, d₁, d₂, out₁, out₂, hnew, h₁, h₂, ?_,
    hsame _ _ _ _ _ _ (by decide) h₁ h₂⟩
  rw [hscan _ _ _ h₁]
  decide +kernel

end Mindone.Mux
