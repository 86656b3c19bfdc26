import Mindone.Mux.DecoderSound

/-!
# Mindone.CMux.Framer

The framer of the C multiplexer (`modem/mux/mindone_mux.c`): the table-driven
checksum, `tx_frame`, and `rx_parse` over the receive buffer. It was written
independently of the Rust framer; `framers_agree` shows that the two coincide
on every input, malformed streams included.
-/

namespace Mindone.CMux

open Mindone.Lib
open Mindone.Mux (flag ValidLimit)

def ctrlPf : UInt8 := 0x10
def ctrlUi : UInt8 := 0x03
def ctrlUih : UInt8 := 0xef
def cmdCr : UInt8 := 0x02
def cmdMsc : UInt8 := 0xe1
def txqCap : Nat := 65536
def rxCap : Nat := 65536

/-! ### The checksum table -/

/-- One entry of `crc_init`. -/
def crcEntry (i : Nat) : UInt8 :=
  (fun c : UInt8 => if c &&& 1 ≠ 0 then c >>> 1 ^^^ 0xe0 else c >>> 1)^[8] (UInt8.ofNat i)

/-- `crc_table` after `crc_init`. -/
def crcTable : List UInt8 := (List.range 256).map crcEntry

def crcUpdate (crc : UInt8) (bytes : List UInt8) : UInt8 :=
  bytes.foldl (fun crc byte => crcTable.getD (crc ^^^ byte).toNat 0) crc

theorem crcTable_getD (b : UInt8) : crcTable.getD b.toNat 0 = Mux.crcBit^[8] b := by
  have hlt : b.toNat < 256 := b.toNat_lt
  rw [crcTable, List.getD_eq_getElem?_getD, List.getElem?_map, List.getElem?_range hlt]
  simp only [Option.map_some, Option.getD_some, crcEntry, UInt8.ofNat_toNat]
  rfl

/-- The table computes the bitwise checksum. -/
theorem crcUpdate_eq (crc : UInt8) (bytes : List UInt8) :
    crcUpdate crc bytes = Mux.crcUpdate crc bytes := by
  unfold crcUpdate Mux.crcUpdate
  congr 1
  funext crc byte
  exact crcTable_getD _

/-! ### The transmit queue -/

/-- The queue `txq[0 .. txq_len)` and the pending poll/final echo. -/
structure Tx where
  txq : List UInt8
  txqLen : Nat
  pfEcho : Bool
  txq_length : txq.length = txqCap
  txqLen_le : txqLen ≤ txqCap

namespace Tx

def queued (t : Tx) : List UInt8 := slice t.txq 0 t.txqLen

/-- `txq_room`. -/
def room (t : Tx) : Nat := txqCap - t.txqLen

/-- The header `tx_frame` builds in `hdr`. -/
def header (dlci ctrl : UInt8) (len : Nat) : List UInt8 :=
  flag :: (dlci <<< 2 ||| 2 ||| 1) :: ctrl ::
    (if len < 128 then [UInt8.ofNat (len <<< 1 ||| 1)]
     else [UInt8.ofNat (len <<< 1), UInt8.ofNat (len >>> 7)])

/-- The cells `tx_frame` writes behind the queue, in its four steps. -/
def writeFrame (txq : List UInt8) (txqLen : Nat) (hdr data : List UInt8) (crc : UInt8) :
    List UInt8 :=
  let txq := blit txq txqLen hdr
  let txq := blit txq (txqLen + hdr.length) data
  let txq := txq.set (txqLen + hdr.length + data.length) (~~~crc)
  txq.set (txqLen + hdr.length + data.length + 1) flag

theorem writeFrame_eq_blit {txq hdr data : List UInt8} {txqLen : Nat} {crc : UInt8}
    (h : txqLen + hdr.length + data.length + 2 ≤ txq.length) :
    writeFrame txq txqLen hdr data crc = blit txq txqLen (hdr ++ data ++ [~~~crc, flag]) := by
  have hblit : blit (blit txq txqLen hdr) (txqLen + hdr.length) data =
      blit txq txqLen (hdr ++ data) := blit_blit (by omega)
  have hone : txqLen + hdr.length + data.length = txqLen + (hdr ++ data).length := by
    simp
    omega
  have htwo : txqLen + (hdr ++ data).length + 1 = txqLen + (hdr ++ data ++ [~~~crc]).length := by
    simp
    omega
  simp only [writeFrame, hblit]
  rw [hone, set_blit (by simp; omega), htwo, set_blit (by simp; omega)]
  simp

/-- `tx_frame`: whether the frame was queued, and the queue afterwards. -/
def txFrame (frameSize : Nat) (t : Tx) (dlci ctrl : UInt8) (data : List UInt8) : Bool × Tx :=
  if data.length > frameSize then (false, t)
  else
    let echo : Bool := (ctrl == ctrlUih || ctrl == ctrlUi) && t.pfEcho &&
      data.head?.any fun first => first &&& ~~~cmdCr == cmdMsc
    let ctrl := if echo then ctrl ||| ctrlPf else ctrl
    let t := if echo then { t with pfEcho := false } else t
    let hdr := header dlci ctrl data.length
    let crc := crcUpdate 0xff (hdr.drop 1)
    let crc := if ctrl &&& ~~~ctrlPf == ctrlUi then crcUpdate crc data else crc
    if hfull : t.room < hdr.length + data.length + 2 then (false, t)
    else
      have hroom : t.txqLen + hdr.length + data.length + 2 ≤ txqCap := by
        have := t.txqLen_le
        simp only [room] at hfull
        omega
      (true, { t with
        txq := writeFrame t.txq t.txqLen hdr data crc
        txqLen := t.txqLen + hdr.length + data.length + 2
        txq_length := by
          rw [writeFrame_eq_blit (by rw [t.txq_length]; exact hroom), blit_length, t.txq_length]
          rw [t.txq_length]
          simp
          omega
        txqLen_le := hroom })

/-- The C header is the Rust one. -/
theorem header_eq (dlci ctrl : UInt8) (data : List UInt8) :
    header dlci ctrl data.length =
      flag :: (Mux.Frame.header ⟨dlci <<< 2 ||| 3, ctrl, data⟩) := by
  have haddr : ∀ d : UInt8, (d <<< 2 ||| 2 ||| 1 : UInt8) = d <<< 2 ||| 3 := by
    decide +kernel
  have hlen : ∀ n : Nat, UInt8.ofNat (n <<< 1 ||| 1) = UInt8.ofNat (n <<< 1) ||| 1 := by
    intro n
    exact UInt8.ofNat_or ..
  simp only [header, Mux.Frame.header, Mux.lengthField, haddr, hlen]

theorem crc_eq (ctrl : UInt8) (hdr data : List UInt8) :
    (if ctrl &&& ~~~ctrlPf == ctrlUi then crcUpdate (crcUpdate 0xff hdr) data
      else crcUpdate 0xff hdr) = Mux.frameCrc ctrl hdr data := by
  simp only [crcUpdate_eq, Mux.frameCrc]
  rfl

/-- **`tx_frame` is `encode`** into the free end of the queue: it queues the
same bytes when `encode` succeeds and changes nothing when `encode` fails. -/
theorem txFrame_spec {frameSize : Nat} (hsize : ValidLimit frameSize) {t : Tx}
    (hecho : t.pfEcho = false) (dlci ctrl : UInt8) (data : List UInt8) :
    match Mux.encode ⟨dlci <<< 2 ||| 3, ctrl, data⟩ frameSize (List.replicate t.room 0) with
    | .ok (total, output) => (txFrame frameSize t dlci ctrl data).1 = true ∧
        (txFrame frameSize t dlci ctrl data).2.queued = t.queued ++ output.take total
    | .error _ => txFrame frameSize t dlci ctrl data = (false, t) := by
  have hlen : (header dlci ctrl data.length).length + data.length + 2 =
      Mux.wireLength data.length := by
    rw [header_eq, Mux.flag_header_length]
    exact Mux.header_add_payload_add_two data.length
  -- Too long a payload, or too little room: both refuse.
  by_cases hlong : data.length > frameSize
  · rw [Mux.encode_oversized hsize hlong]
    simp only [txFrame, if_pos hlong]
  · by_cases hroom : t.room < Mux.wireLength data.length
    · rw [Mux.encode_short hsize (by simpa using hlong) (by simpa using hroom)]
      simp [txFrame, hlong, hecho, hlen, hroom]
    · rw [Mux.encode_eq_ok hsize (by simpa using hlong) (by simpa using hroom)]
      -- The same header and check byte,
      have hcrc := crc_eq ctrl (Mux.Frame.header ⟨dlci <<< 2 ||| 3, ctrl, data⟩) data
      -- and room at the end of the queue for all of it.
      have hfit : t.txqLen + Mux.wireLength data.length ≤ t.txq.length := by
        have := t.txqLen_le
        rw [t.txq_length]
        simp only [room] at hroom
        omega
      -- The bytes of the frame.
      set wire := Mux.Frame.wire ⟨dlci <<< 2 ||| 3, ctrl, data⟩ with hwire
      have hwirelen : wire.length = Mux.wireLength data.length := Mux.wire_length _
      have hbytes : header dlci ctrl data.length ++ data ++
          [~~~(Mux.frameCrc ctrl (Mux.Frame.header ⟨dlci <<< 2 ||| 3, ctrl, data⟩) data), flag] =
          wire := by
        rw [header_eq, hwire]
        simp [Mux.Frame.wire, Mux.Frame.body, Mux.Frame.fcs]
      have hdrop : (header dlci ctrl data.length).drop 1 =
          Mux.Frame.header ⟨dlci <<< 2 ||| 3, ctrl, data⟩ := by rw [header_eq]; rfl
      have htake : (blit (List.replicate t.room 0) 0 wire).take (Mux.wireLength data.length) =
          wire := by
        rw [blit_zero, List.take_left' hwirelen]
      simp only [txFrame, if_neg hlong, hecho, Bool.and_false, Bool.false_and,
        Bool.false_eq_true, if_false, hlen, dif_neg hroom, hdrop, hcrc, true_and, htake]
      simp only [queued]
      rw [writeFrame_eq_blit (by omega), hbytes, ← slice_blit (Nat.zero_le _) (by omega)]
      congr 1
      omega

end Tx

/-! ### The receive buffer -/

/-- The buffer `rxb[0 .. rx_len)`. -/
structure Rx where
  rxb : List UInt8
  rxLen : Nat
  rxb_length : rxb.length = rxCap
  rxLen_le : rxLen ≤ rxCap

namespace Rx

def pending (r : Rx) : List UInt8 := slice r.rxb 0 r.rxLen

theorem pending_length (r : Rx) : r.pending.length = r.rxLen := by
  rw [pending, slice_length (by rw [r.rxb_length]; exact r.rxLen_le), Nat.sub_zero]

section Parse

variable (rxb : List UInt8) (rxLen frameSize : Nat)

/-- `while (i < rx_len && rxb[i] != MUX_FLAG) i++`. -/
def skipToFlag (i : Nat) : Nat :=
  if i < rxLen ∧ rxb.getD i 0 ≠ flag then skipToFlag (i + 1) else i
termination_by rxLen - i

/-- `while (i + 1 < rx_len && rxb[i + 1] == MUX_FLAG) i++`. -/
def skipFlagRun (i : Nat) : Nat :=
  if i + 1 < rxLen ∧ rxb.getD (i + 1) 0 = flag then skipFlagRun (i + 1) else i
termination_by rxLen - i

/-- What the loop of `rx_parse` does with the candidate behind a flag. -/
inductive Outcome
  | wait
  | drop
  | handle (dlci ctrl : UInt8) (data : List UInt8) (next : Nat)

/-- The part of the loop body behind the length field. -/
def parseBody (p hl len : Nat) : Outcome :=
  let ctrl := rxb.getD (p + 1) 0
  if len > frameSize then .drop
  else if rxLen - p < hl + len + 2 then .wait
  else
    let crc := crcUpdate 0xff (slice rxb p (p + hl))
    let crc := if ctrl &&& ~~~ctrlPf == ctrlUi then
      crcUpdate crc (slice rxb (p + hl) (p + hl + len)) else crc
    if crc ^^^ rxb.getD (p + hl + len) 0 ≠ 0xff then .drop
    else if rxb.getD (p + hl + len + 1) 0 ≠ flag then .drop
    else .handle (rxb.getD p 0 >>> 2) ctrl (slice rxb (p + hl) (p + hl + len)) (p + hl + len + 1)

/-- The loop body behind the two skips. -/
def parseOne (i : Nat) : Outcome :=
  if rxLen - i < 4 then .wait
  else
    let p := i + 1
    let len := (rxb.getD (p + 2) 0 >>> 1).toNat
    if rxb.getD (p + 2) 0 &&& 1 = 0 then
      if rxLen - p < 4 then .wait
      else parseBody rxb rxLen frameSize p 4 (len ||| (rxb.getD (p + 3) 0).toNat <<< 7)
    else parseBody rxb rxLen frameSize p 3 len

/-! The C loops read the same cells as the Rust ones, so the Rust verdict
decides what the C loop does. -/

theorem skipToFlag_eq (i : Nat) (stats : Mux.DecodeStats) :
    skipToFlag rxb rxLen i = (Mux.skipNoise rxb rxLen i stats).1 := by
  fun_induction Mux.skipNoise rxb rxLen i stats with
  | case1 i stats h ih => rw [skipToFlag, if_pos h, ih]
  | case2 i stats h => rw [skipToFlag, if_neg h]

theorem skipFlagRun_eq (i : Nat) : skipFlagRun rxb rxLen i = Mux.skipFlags rxb rxLen i := by
  fun_induction Mux.skipFlags rxb rxLen i with
  | case1 i h ih => rw [skipFlagRun, if_pos h, ih]
  | case2 i h => rw [skipFlagRun, if_neg h]

/-- The C outcome for a Rust verdict. -/
def Outcome.ofVerdict : Mux.Verdict → Outcome
  | .incomplete => .wait
  | .oversized | .badChecksum | .missingClosingFlag => .drop
  | .accepted frame closing => .handle frame.channel frame.control frame.payload closing

theorem parseBody_eq (p hl len : Nat) :
    parseBody rxb rxLen frameSize p hl len =
      .ofVerdict (if len > frameSize then .oversized
        else Mux.judgeBody rxb rxLen p len hl) := by
  unfold parseBody Mux.judgeBody
  by_cases hsize : len > frameSize
  · simp only [if_pos hsize, Outcome.ofVerdict]
  · have hclosing : (rxLen - p < hl + len + 2) ↔ (p + hl + len + 1 ≥ rxLen) := by omega
    simp only [if_neg hsize, hclosing, Tx.crc_eq]
    by_cases hshort : p + hl + len + 1 ≥ rxLen
    · simp only [if_pos hshort, Outcome.ofVerdict]
    · simp only [if_neg hshort]
      rw [apply_ite Outcome.ofVerdict, apply_ite Outcome.ofVerdict]
      rfl

theorem parseOne_eq (i : Nat) :
    parseOne rxb rxLen frameSize i = .ofVerdict (Mux.judge rxb rxLen frameSize i) := by
  unfold parseOne Mux.judge
  by_cases hshort : rxLen - i < 4
  · simp only [if_pos hshort, Outcome.ofVerdict]
  · simp only [if_neg hshort, Mux.sizeField]
    by_cases hext : rxb.getD (i + 1 + 2) 0 &&& 1 = 0
    · simp only [if_pos hext]
      by_cases hfifth : rxLen - (i + 1) < 4
      · simp only [if_pos hfifth, Outcome.ofVerdict]
      · simp only [if_neg hfifth]
        exact parseBody_eq rxb rxLen frameSize ..
    · simp only [if_neg hext]
      exact parseBody_eq rxb rxLen frameSize ..

variable {σ : Type*} (handleFrame : UInt8 → UInt8 → List UInt8 → σ → σ)

/-- The loop of `rx_parse`, entered at `i`. The frames go to `handle_frame`,
which acts on state other than the receive buffer. -/
def parseLoop (i : Nat) (s : σ) : Nat × σ :=
  let here := skipFlagRun rxb rxLen (skipToFlag rxb rxLen i)
  match h : parseOne rxb rxLen frameSize here with
  | .wait => (here, s)
  | .drop => parseLoop (here + 1) s
  | .handle dlci ctrl data next => parseLoop next (handleFrame dlci ctrl data s)
termination_by rxLen - i
decreasing_by
  all_goals
    have hhere : i ≤ here := by
      have h1 := Mux.skipNoise_le rxb rxLen i {}
      have h2 := Mux.skipFlags_le rxb rxLen (Mux.skipNoise rxb rxLen i {}).1
      simp only [here, skipFlagRun_eq, skipToFlag_eq rxb rxLen i {}]
      omega
    rw [parseOne_eq] at h
    have hlong : ¬ rxLen - here < 4 := fun hs => by
      rw [Mux.judge_of_short rxb rxLen frameSize hs] at h
      cases h
  · change rxLen - (here + 1) < rxLen - i
    omega
  · cases hj : Mux.judge rxb rxLen frameSize here with
    | accepted frame closing =>
        have hlt := Mux.judge_accepted_lt _ _ _ hj
        rw [hj] at h
        cases h
        omega
    | _ => rw [hj] at h; cases h

variable {rxb rxLen frameSize} {handleFrame}

/-- Hand frames to `handle_frame` one after the other. -/
def handleAll (handleFrame : UInt8 → UInt8 → List UInt8 → σ → σ) (s : σ)
    (fs : List Mux.Frame) : σ :=
  fs.foldl (fun s f => handleFrame f.channel f.control f.payload s) s

variable (frameSize) in
/-- The two skips lead to a candidate, or to the end of the buffer. -/
theorem skips_spec (hbuf : rxLen ≤ rxb.length) {i : Nat} (hi : i ≤ rxLen) :
    skipFlagRun rxb rxLen (skipToFlag rxb rxLen i) ≤ rxLen ∧
      ∃ tokens, (Mux.scanner frameSize).Steps (slice rxb i rxLen) tokens
          (slice rxb (skipFlagRun rxb rxLen (skipToFlag rxb rxLen i)) rxLen) ∧
        Mux.frames tokens = [] := by
  obtain ⟨tokens, hsteps, hframes, -, -⟩ := Mux.skip_spec frameSize hbuf hi {}
  rw [skipFlagRun_eq, skipToFlag_eq rxb rxLen i {}]
  exact ⟨Mux.skipFlags_le_length _ _ (Mux.skipNoise_le_length _ _ _ hi), tokens, hsteps, hframes⟩

variable (frameSize) in
/-- The scanner's step for each outcome of the loop body behind the skips. -/
theorem parseOne_step (hbuf : rxLen ≤ rxb.length) {i : Nat} (hi : i ≤ rxLen) :
    let here := skipFlagRun rxb rxLen (skipToFlag rxb rxLen i)
    match parseOne rxb rxLen frameSize here with
    | .wait => (Mux.scanner frameSize).step (slice rxb here rxLen) = none
    | .drop => here < rxLen ∧ ∃ token : Mux.Token, token.frame? = none ∧
        (Mux.scanner frameSize).step (slice rxb here rxLen) = some ([token], 1)
    | .handle dlci ctrl data next => here < next ∧ next < rxLen ∧
        ∃ frame : Mux.Frame, frame.channel = dlci ∧ frame.control = ctrl ∧ frame.payload = data ∧
        (Mux.scanner frameSize).step (slice rxb here rxLen) =
          some ([.frame frame], next - here) := by
  intro here
  obtain ⟨-, -, -, -, hstep⟩ := Mux.skip_spec frameSize hbuf hi {}
  rw [← skipToFlag_eq rxb rxLen i {}, ← skipFlagRun_eq] at hstep
  have hshort : Mux.judge rxb rxLen frameSize here ≠ .incomplete → here < rxLen := fun hne =>
    Nat.lt_of_not_le fun hge => hne (Mux.judge_of_short _ _ _ (by omega))
  rw [parseOne_eq, ← hstep]
  cases hj : Mux.judge rxb rxLen frameSize here with
  | incomplete => rfl
  | oversized => exact ⟨hshort (by simp [hj]), .oversized, rfl, rfl⟩
  | badChecksum => exact ⟨hshort (by simp [hj]), .badChecksum, rfl, rfl⟩
  | missingClosingFlag => exact ⟨hshort (by simp [hj]), .missingClosingFlag, rfl, rfl⟩
  | accepted frame closing =>
      have hlt := Mux.judge_accepted_lt _ _ _ hj
      exact ⟨hlt.1, hlt.2, frame, rfl, rfl, rfl, rfl⟩

variable (frameSize handleFrame) in
/-- **The C loop is one scanner run**: it hands the accepted frames to
`handle_frame` in order and stops where the scanner waits. -/
theorem parseLoop_spec (hbuf : rxLen ≤ rxb.length) {i : Nat} (hi : i ≤ rxLen) (s : σ) :
    (parseLoop rxb rxLen frameSize handleFrame i s).1 ≤ rxLen ∧
      slice rxb (parseLoop rxb rxLen frameSize handleFrame i s).1 rxLen =
        ((Mux.scanner frameSize).run (slice rxb i rxLen)).2 ∧
      (parseLoop rxb rxLen frameSize handleFrame i s).2 =
        handleAll handleFrame s
          (Mux.frames ((Mux.scanner frameSize).run (slice rxb i rxLen)).1) := by
  fun_induction parseLoop rxb rxLen frameSize handleFrame i s with
  -- Nothing more to take: the loop and the scanner wait at the same byte.
  | case1 i s here h =>
      obtain ⟨hle, tokens, hsteps, hframes⟩ := skips_spec frameSize hbuf hi
      have hstep := parseOne_step frameSize hbuf hi
      simp only [here] at h
      simp only [h] at hstep
      rw [hsteps.run_eq, (Mux.scanner frameSize).run_of_step_none hstep]
      simp [hframes, handleAll, hle, here]
  -- One byte is dropped, as the scanner does with a token that is no frame.
  | case2 i s here h ih =>
      obtain ⟨hle, tokens, hsteps, hframes⟩ := skips_spec frameSize hbuf hi
      have hstep := parseOne_step frameSize hbuf hi
      simp only [here] at h
      simp only [h] at hstep
      obtain ⟨hlt, token, htoken, hstep⟩ := hstep
      have hdrop : (slice rxb here rxLen).drop 1 = slice rxb (here + 1) rxLen := slice_drop ..
      have hone : Mux.frames [token] = [] := by simp [Mux.frames, htoken]
      rw [hsteps.run_eq, (Mux.scanner frameSize).run_of_step_some hstep]
      simp only [here] at hdrop ih ⊢
      obtain ⟨hend, hrest, hout⟩ := ih hlt
      refine ⟨hend, by rw [hrest, hdrop], ?_⟩
      rw [hout, hdrop, Mux.frames_append, Mux.frames_append, hframes, hone]
      rfl
  -- A frame is handed on, and the loop goes on behind it.
  | case3 i s here dlci ctrl data next h ih =>
      obtain ⟨hle, tokens, hsteps, hframes⟩ := skips_spec frameSize hbuf hi
      have hstep := parseOne_step frameSize hbuf hi
      simp only [here] at h
      simp only [h] at hstep
      obtain ⟨hlt, hnext, frame, rfl, rfl, rfl, hstep⟩ := hstep
      have hdrop : (slice rxb here rxLen).drop (next - here) = slice rxb next rxLen := by
        rw [slice_drop]
        congr 1
        simp only [here]
        omega
      rw [hsteps.run_eq, (Mux.scanner frameSize).run_of_step_some hstep]
      simp only [here] at hdrop ih ⊢
      obtain ⟨hend, hrest, hout⟩ := ih (by omega)
      refine ⟨hend, by rw [hrest, hdrop], ?_⟩
      rw [hout, hdrop, Mux.frames_append, Mux.frames_append, hframes]
      rfl

end Parse

/-- `rx_parse`: parse the buffer and move what is left to its front. -/
def parse {σ : Type*} (frameSize : Nat) (handleFrame : UInt8 → UInt8 → List UInt8 → σ → σ)
    (r : Rx) (s : σ) : Rx × σ :=
  let out := parseLoop r.rxb r.rxLen frameSize handleFrame 0 s
  have hbuf : r.rxLen ≤ r.rxb.length := by rw [r.rxb_length]; exact r.rxLen_le
  have hle : out.1 ≤ r.rxLen := (parseLoop_spec frameSize handleFrame hbuf (Nat.zero_le _) s).1
  ({ rxb := copyToFront r.rxb out.1 r.rxLen
     rxLen := r.rxLen - out.1
     rxb_length := by rw [copyToFront_length hle hbuf, r.rxb_length]
     rxLen_le := Nat.le_trans (Nat.sub_le _ _) r.rxLen_le },
    out.2)

theorem parse_spec {σ : Type*} (frameSize : Nat)
    (handleFrame : UInt8 → UInt8 → List UInt8 → σ → σ) (r : Rx) (s : σ) :
    (parse frameSize handleFrame r s).1.pending =
        ((Mux.scanner frameSize).run r.pending).2 ∧
      (parse frameSize handleFrame r s).2 =
        handleAll handleFrame s (Mux.frames ((Mux.scanner frameSize).run r.pending).1) := by
  have hbuf : r.rxLen ≤ r.rxb.length := by rw [r.rxb_length]; exact r.rxLen_le
  obtain ⟨hle, hrest, hout⟩ :=
    parseLoop_spec frameSize handleFrame hbuf (Nat.zero_le _) s
  exact ⟨(slice_copyToFront hbuf).trans hrest, hout⟩

/-- The buffer after a `read` that put `bytes` behind the pending ones. -/
def fill (r : Rx) (bytes : List UInt8) (h : bytes.length ≤ rxCap - r.rxLen) : Rx :=
  have hlen := r.rxb_length
  have hle := r.rxLen_le
  { rxb := blit r.rxb r.rxLen bytes
    rxLen := r.rxLen + bytes.length
    rxb_length := by rw [blit_length (by omega), hlen]
    rxLen_le := by omega }

theorem fill_pending (r : Rx) (bytes : List UInt8) (h : bytes.length ≤ rxCap - r.rxLen) :
    (r.fill bytes h).pending = r.pending ++ bytes := by
  have hlen := r.rxb_length
  have hle := r.rxLen_le
  exact slice_blit (Nat.zero_le _) (by omega)

/-- One successful `read` of `serial_read`: the bytes land behind the pending
ones, are parsed, and a buffer that is still full is dropped. There is none when
the bytes do not fit, since `read` is given the free cells only. -/
def receive {σ : Type*} (frameSize : Nat) (handleFrame : UInt8 → UInt8 → List UInt8 → σ → σ)
    (r : Rx) (s : σ) (bytes : List UInt8) : Option (Rx × σ) :=
  if h : bytes.length ≤ rxCap - r.rxLen then
    let out := parse frameSize handleFrame (r.fill bytes h) s
    if out.1.rxLen = rxCap then
      some ({ out.1 with rxLen := 0, rxLen_le := Nat.zero_le _ }, out.2)
    else some out
  else none

/-- Read one chunk after the other. -/
def receiveAll {σ : Type*} (frameSize : Nat) (handleFrame : UInt8 → UInt8 → List UInt8 → σ → σ) :
    Rx → σ → List (List UInt8) → Option (Rx × σ)
  | r, s, [] => some (r, s)
  | r, s, chunk :: chunks => do
      let (r, s) ← receive frameSize handleFrame r s chunk
      receiveAll frameSize handleFrame r s chunks

/-- What an incomplete frame leaves in the buffer never fills it. -/
theorem rxLen_ne_rxCap {frameSize : Nat} (hsize : ValidLimit frameSize) {r : Rx}
    {bytes : List UInt8} (h : r.pending = ((Mux.scanner frameSize).run bytes).2) :
    r.rxLen ≠ rxCap := by
  have hwait := Mux.scanStep_none_length ((Mux.scanner frameSize).step_run_rest bytes)
  rw [← h, pending_length] at hwait
  have hmax := hsize.2
  unfold Mux.maxPayload at hmax
  unfold rxCap
  omega

/-- **Reading one chunk is one scanner run** over the pending bytes and the
chunk, and nothing is dropped. -/
theorem receive_spec {σ : Type*} {frameSize : Nat} (hsize : ValidLimit frameSize)
    {handleFrame : UInt8 → UInt8 → List UInt8 → σ → σ} {r r' : Rx} {s s' : σ} {bytes : List UInt8}
    (h : receive frameSize handleFrame r s bytes = some (r', s')) :
    r'.pending = ((Mux.scanner frameSize).run (r.pending ++ bytes)).2 ∧
      s' = handleAll handleFrame s
        (Mux.frames ((Mux.scanner frameSize).run (r.pending ++ bytes)).1) := by
  unfold receive at h
  split at h
  · rename_i hfits
    have hparse := parse_spec frameSize handleFrame (r.fill bytes hfits) s
    rw [fill_pending] at hparse
    have hroom := rxLen_ne_rxCap hsize hparse.1
    simp only [if_neg hroom, Option.some.injEq] at h
    rwa [h] at hparse
  · cases h

/-- Reading chunks is the scanner's feed. -/
theorem receiveAll_spec {σ : Type*} {frameSize : Nat} (hsize : ValidLimit frameSize)
    {handleFrame : UInt8 → UInt8 → List UInt8 → σ → σ} {chunks : List (List UInt8)} {r r' : Rx}
    {s s' : σ} (h : receiveAll frameSize handleFrame r s chunks = some (r', s')) :
    r'.pending = ((Mux.scanner frameSize).feed r.pending chunks).2 ∧
      s' = handleAll handleFrame s
        (Mux.frames ((Mux.scanner frameSize).feed r.pending chunks).1) := by
  induction chunks generalizing r s with
  | nil =>
      cases h
      exact ⟨rfl, rfl⟩
  | cons chunk chunks ih =>
      simp only [receiveAll, Option.bind_eq_bind, Option.bind_eq_some_iff] at h
      obtain ⟨⟨r₁, s₁⟩, hfirst, hrest⟩ := h
      obtain ⟨hpending, hout⟩ := receive_spec hsize hfirst
      obtain ⟨hpending', hout'⟩ := ih hrest
      rw [hpending] at hpending' hout'
      simp only [Lexer.feed, Mux.frames_append]
      refine ⟨hpending', ?_⟩
      rw [hout', hout]
      exact List.foldl_append.symm

/-- The buffer at start-up. -/
def init : Rx where
  rxb := List.replicate rxCap 0
  rxLen := 0
  rxb_length := List.length_replicate ..
  rxLen_le := Nat.zero_le _

theorem init_pending : init.pending = [] := slice_self _ _

/-- The C buffer takes a chunk exactly when a decoder of its size that holds the
same bytes does. -/
theorem receiveAll_isSome_iff {σ : Type*} {frameSize : Nat} (hsize : ValidLimit frameSize)
    {handleFrame : UInt8 → UInt8 → List UInt8 → σ → σ} {chunks : List (List UInt8)} {r : Rx}
    {s : σ} {d : Mux.Decoder rxCap} (hlimit : d.limit = frameSize)
    (hsame : r.pending = d.buffered) :
    (receiveAll frameSize handleFrame r s chunks).isSome ↔
      ∃ out d', d.feed chunks = .ok (out, d') := by
  induction chunks generalizing r s d with
  | nil => exact ⟨fun _ => ⟨[], d, rfl⟩, fun _ => rfl⟩
  | cons chunk chunks ih =>
      have hroom : rxCap - r.rxLen = d.availableCapacity := by
        rw [Mux.Decoder.availableCapacity, ← hsame, pending_length]
      by_cases hfits : chunk.length ≤ rxCap - r.rxLen
      · obtain ⟨pushed, hpush⟩ := Mux.Decoder.push_ok (d := d) chunk (hroom ▸ hfits)
        obtain ⟨hbuf, -, hlimit'⟩ := Mux.Decoder.push_spec hpush
        obtain ⟨-, hleft, -, hkept⟩ := pushed.drain_spec
        obtain ⟨⟨r₁, s₁⟩, hfirst⟩ : ∃ out, receive frameSize handleFrame r s chunk = some out := by
          rw [receive, dif_pos hfits]
          exact ⟨_, (apply_ite some _ _ _).symm⟩
        have hpending := (receive_spec hsize hfirst).1
        have hnext : r₁.pending = pushed.drain.2.buffered := by
          rw [hpending, hleft, hlimit', hlimit, hbuf, hsame]
        have hrec := ih (r := r₁) (s := s₁) (d := pushed.drain.2)
          (by rw [hkept, hlimit', hlimit]) hnext
        simp only [receiveAll, hfirst, Option.bind_some, hrec,
          Mux.Decoder.feed, hpush, bind, Except.bind, pure, Except.pure]
        constructor
        · rintro ⟨out, d', hfeed⟩
          exact ⟨pushed.drain.1 ++ out, d', by rw [hfeed]⟩
        · rintro ⟨out, d', hfeed⟩
          split at hfeed
          · cases hfeed
          · rename_i rest hrest
            exact ⟨rest.1, rest.2, hrest⟩
      · have hfull : receive frameSize handleFrame r s chunk = none := dif_neg hfits
        have herr : d.push chunk = .error .insufficientCapacity := by
          rw [hroom] at hfits
          exact dif_pos (by omega)
        simp [receiveAll, hfull, Mux.Decoder.feed, herr, bind, Except.bind]

end Rx

/-! ### Agreement with the Rust framer -/

/-- **The two framers agree on every input.** `tx_frame` queues the bytes of
`encode`, the checksums are one function, and `rx_parse` hands to `handle_frame`
the frames the decoder returns, leaving the same bytes, however either side's
input is cut. Over equal buffers the two also take the same chunks. -/
theorem framers_agree {frameSize : Nat} (hsize : ValidLimit frameSize) :
    (∀ (t : Tx) (dlci ctrl : UInt8) (data : List UInt8) (frame : Mux.Frame),
      t.pfEcho = false → Mux.Frame.command dlci ctrl data = .ok frame →
      match Mux.encode frame frameSize (List.replicate t.room 0) with
      | .ok (total, output) => (t.txFrame frameSize dlci ctrl data).1 = true ∧
          (t.txFrame frameSize dlci ctrl data).2.queued = t.queued ++ output.take total
      | .error _ => t.txFrame frameSize dlci ctrl data = (false, t)) ∧
    (∀ (crc : UInt8) (bytes : List UInt8), crcUpdate crc bytes = Mux.crcUpdate crc bytes) ∧
    (∀ (σ : Type) (handleFrame : UInt8 → UInt8 → List UInt8 → σ → σ) (capacity : Nat)
      (d d' : Mux.Decoder capacity) (out : List Mux.Frame) (r : Rx) (s s' : σ)
      (chunks chunks' : List (List UInt8)), Mux.Decoder.new frameSize = .ok d →
      chunks.flatten = chunks'.flatten → d.feed chunks = .ok (out, d') →
      Rx.init.receiveAll frameSize handleFrame s chunks' = some (r, s') →
      s' = out.foldl (fun s (f : Mux.Frame) => handleFrame (f.address >>> 2) f.control f.payload s) s ∧
        r.pending = d'.buffered) ∧
    (∀ (σ : Type) (handleFrame : UInt8 → UInt8 → List UInt8 → σ → σ) (d : Mux.Decoder rxCap)
      (s : σ) (chunks : List (List UInt8)), Mux.Decoder.new frameSize = .ok d →
      ((Rx.init.receiveAll frameSize handleFrame s chunks).isSome ↔
        ∃ out d', d.feed chunks = .ok (out, d'))) := by
  refine ⟨?_, crcUpdate_eq, ?_, ?_⟩
  · intro t dlci ctrl data frame hecho hframe
    have hcommand : frame = ⟨dlci <<< 2 ||| 3, ctrl, data⟩ := by
      unfold Mux.Frame.command at hframe
      split at hframe
      · cases hframe
      · cases hframe
        rfl
    rw [hcommand]
    exact Tx.txFrame_spec hsize hecho dlci ctrl data
  · intro σ handleFrame capacity d d' out r s s' chunks chunks' hnew hsame hfeed hreceive
    obtain ⟨hout, hbuf, -⟩ := Mux.Decoder.feed_new hnew hfeed
    obtain ⟨hpending, hcalls⟩ := Rx.receiveAll_spec hsize hreceive
    rw [Rx.init_pending, Lexer.feed_eq_run _ (Lexer.step_nil _), List.nil_append, ← hsame]
      at hpending hcalls
    rw [hcalls, hpending, hout, hbuf]
    exact ⟨rfl, rfl⟩
  · intro σ handleFrame d s chunks hnew
    obtain ⟨hbuf, -, hlimit⟩ := Mux.Decoder.new_spec hnew
    exact Rx.receiveAll_isSome_iff hsize hlimit (by rw [Rx.init_pending, hbuf])

/-- Both framers on a frame of one flag byte behind noise, at frame size one:
the calls of `handle_frame` are recorded in a list. -/
theorem framers_agree_flag_payload :
    ∃ (d d' : Mux.Decoder rxCap) (out : List Mux.Frame) (r : Rx)
      (calls : List (UInt8 × UInt8 × List UInt8)),
      Mux.Decoder.new 1 = .ok d ∧
      d.feed [[0x41, 0xf9, 0x07, 0xef, 0x03, 0xf9, 0xd4, 0xf9]] = .ok (out, d') ∧
      Rx.init.receiveAll 1 (fun dlci ctrl data calls => calls ++ [(dlci, ctrl, data)]) []
        [[0x41, 0xf9, 0x07, 0xef], [0x03, 0xf9, 0xd4, 0xf9]] = some (r, calls) ∧
      calls = out.foldl (fun calls (f : Mux.Frame) =>
        calls ++ [(f.address >>> 2, f.control, f.payload)]) [] ∧
      r.pending = d'.buffered := by
  have hlimit : ValidLimit 1 := by decide
  obtain ⟨-, -, hagree, hfits⟩ := framers_agree hlimit
  obtain ⟨d, hnew, hbuf, -, hsize⟩ := Mux.Decoder.new_ok rxCap hlimit (by decide)
  obtain ⟨out, d', hfeed⟩ := Mux.Decoder.feed_ok (d := d)
    [[0x41, 0xf9, 0x07, 0xef, 0x03, 0xf9, 0xd4, 0xf9]]
    (by simp [hbuf]) (by rw [hsize]; decide)
  have hsplit : ∃ out d', d.feed [[0x41, 0xf9, 0x07, 0xef], [0x03, 0xf9, 0xd4, 0xf9]] =
      .ok (out, d') :=
    Mux.Decoder.feed_ok _ (by simp [hbuf]) (by rw [hsize]; decide)
  obtain ⟨⟨r, calls⟩, hreceive⟩ := Option.isSome_iff_exists.mp
    ((hfits _ (fun dlci ctrl data calls => calls ++ [(dlci, ctrl, data)]) d [] _ hnew).mpr hsplit)
  exact ⟨d, d', out, r, calls, hnew, hfeed, hreceive,
    hagree _ _ _ d d' out r _ _ _ _ hnew (by decide) hfeed hreceive⟩

end Mindone.CMux
