import Mindone.Fsd.Daemon

/-!
# Mindone.Fsd.Replies

**Every datagram is answered completely**, whatever the file system does, except for one kind
of request: a read whose buffer may take more bytes than a reply can carry. The reply has a
header, the result and, for `Read`, a count in front of the data, in a buffer of the same size
as the one that the data is read into; a reply that does not fit is not sent at all, and the
bytes that were taken from the file are lost.
-/

namespace Mindone.Fsd

open Mindone.Lib

/-! ### The layout of a reply -/

/-- The size of segments in a reply. -/
def segsSize (segs : List Bytes) : Nat := (segs.map fun seg => 4 + padded seg.length).sum

theorem le_padded (n : Nat) : n ≤ padded n := by
  unfold padded
  omega

/-- **Segments fit exactly when their size does.** -/
theorem layout_eq_none_iff {cap : Nat} {segs : List Bytes} {off : Nat} (hoff : off ≤ cap) :
    layout cap off segs = none ↔ cap < off + segsSize segs := by
  induction segs generalizing off with
  | nil => simp [layout, segsSize, hoff]
  | cons seg rest ih =>
      unfold layout
      dsimp only
      have hsize : segsSize (seg :: rest) = 4 + padded seg.length + segsSize rest := rfl
      split
      · rename_i hfull
        rw [hsize]
        exact ⟨fun _ => by omega, fun _ => rfl⟩
      · rename_i hfits
        have hrest := ih (Nat.le_of_not_lt hfits)
        rw [hsize]
        cases hlayout : layout cap (off + 4 + padded seg.length) rest with
        | none =>
            rw [hlayout] at hrest
            have := hrest.mp rfl
            exact ⟨fun _ => by omega, fun _ => rfl⟩
        | some body =>
            rw [hlayout] at hrest
            constructor
            · intro h
              cases h
            · intro h
              cases hrest.mpr (by omega)

theorem layout_length {cap : Nat} {segs : List Bytes} {off : Nat} {body : Bytes}
    (h : layout cap off segs = some body) : body.length = segsSize segs := by
  induction segs generalizing off body with
  | nil =>
      cases h
      rfl
  | cons seg rest ih =>
      unfold layout at h
      dsimp only at h
      split at h
      · cases h
      obtain ⟨tail, htail, hbody⟩ := Option.bind_eq_some_iff.mp h
      cases hbody
      have hseg := le_padded seg.length
      simp only [List.length_append, List.length_replicate, ih htail]
      show 4 + seg.length + _ + _ = 4 + padded seg.length + segsSize rest
      omega

/-! ### Words -/

theorem byteAt_append {pre rest : Bytes} (i : Nat) :
    byteAt (pre ++ rest) (pre.length + i) = byteAt rest i := by
  unfold byteAt
  rw [List.getD_append_right _ _ _ _ (Nat.le_add_right _ _), Nat.add_sub_cancel_left]

theorem word_append (pre rest : Bytes) (i : Nat) :
    word (pre ++ rest) (pre.length + i) = word rest i := by
  unfold word
  simp only [Nat.add_assoc pre.length, byteAt_append]

theorem word_le32 {w : Nat} (hw : w < 0x100000000) (rest : Bytes) : word (le32 w ++ rest) 0 = w := by
  simp only [word, byteAt, le32, List.cons_append, List.nil_append, List.getD_cons_zero,
    List.getD_cons_succ, UInt8.toNat_ofNat']
  omega

theorem word_lt (bytes : Bytes) (offset : Nat) : word bytes offset < 0x100000000 := by
  have hbyte : ∀ i, byteAt bytes i < 256 := fun i => UInt8.toNat_lt _
  have h₀ := hbyte offset
  have h₁ := hbyte (offset + 1)
  have h₂ := hbyte (offset + 2)
  have h₃ := hbyte (offset + 3)
  unfold word
  omega

/-- **The parser reads back what the layout has written.** -/
theorem parseSegs_layout {cap off : Nat} (hcap : cap ≤ 0xffffffff) {segs : List Bytes} {body : Bytes}
    (h : layout cap off segs = some body) (pre : Bytes) :
    parseSegs (pre ++ body) segs.length pre.length = some segs := by
  -- Over the segments, with what has been written before as a prefix.
  induction segs generalizing off body pre with
  | nil => rfl
  | cons seg rest ih =>
      unfold layout at h
      dsimp only at h
      split at h
      · cases h
      rename_i hfits
      obtain ⟨tail, htail, hbody⟩ := Option.bind_eq_some_iff.mp h
      cases hbody
      have hseg := le_padded seg.length
      have hlength : seg.length < 0x100000000 := by omega
      generalize hpad : List.replicate (padded seg.length - seg.length) (0 : UInt8) = pad
      have hpadLength : seg.length + pad.length = padded seg.length := by
        rw [← hpad, List.length_replicate]
        omega
      -- The length word in front of the segment,
      have hword : word (pre ++ (le32 seg.length ++ seg ++ pad ++ tail)) pre.length =
          seg.length := by
        rw [← Nat.add_zero pre.length, word_append, List.append_assoc, List.append_assoc,
          word_le32 hlength]
      have hall : (pre ++ (le32 seg.length ++ seg ++ pad ++ tail)).length =
          pre.length + 4 + seg.length + pad.length + tail.length := by
        simp only [List.length_append]
        show pre.length + (4 + seg.length + pad.length + tail.length) = _
        omega
      have hrest := ih htail (pre ++ (le32 seg.length ++ seg ++ pad))
      have hpre : (pre ++ (le32 seg.length ++ seg ++ pad)).length =
          pre.length + 4 + padded seg.length := by
        simp only [List.length_append]
        show pre.length + (4 + seg.length + pad.length) = _
        omega
      rw [hpre, List.append_assoc] at hrest
      -- and its bytes, without the padding.
      have hdata : (List.drop (pre.length + 4) (pre ++ (le32 seg.length ++ seg ++ pad ++ tail))).take
          seg.length = seg := by
        have hsplit : pre ++ (le32 seg.length ++ seg ++ pad ++ tail) =
            (pre ++ le32 seg.length) ++ (seg ++ (pad ++ tail)) := by
          simp only [List.append_assoc]
        rw [hsplit, List.drop_left' (by rw [List.length_append]; rfl), List.take_left' rfl]
      simp only [List.length_cons, parseSegs]
      rw [hword, if_neg (by omega), if_neg (by omega), hdata, hrest]
      rfl

/-! ### Complete replies -/

/-- **A complete reply**: of a size that fits the device's buffer and that its length word
states, with the operation of its request marked as answered, and with segments that a parser
of the same format reads back. -/
structure Complete (opId : Nat) (segs : List Bytes) (reply : Bytes) : Prop where
  size : 24 ≤ reply.length ∧ reply.length ≤ ioBufSize
  lengthWord : word reply 4 = reply.length
  opWord : word reply 16 = opId ||| 0xFFFF0000
  segments : fsParseReq (reply.drop headerSize) = some ⟨opId ||| 0xFFFF0000, segs⟩

/-- The segments fit into a reply. -/
def Fits (segs : List Bytes) : Prop := segs.length ≤ fsMaxSegs ∧ segsSize segs ≤ ioBufSize - 24

/-- **A reply whose segments fit is complete.** -/
theorem buildResp_complete (hdr : Header) {opId : Nat} (hop : opId < 0x100000000)
    {segs : List Bytes} (h : Fits segs) : Complete opId segs (buildResp hdr opId segs) := by
  obtain ⟨hcount, hsize⟩ := h
  cases hlayout : layout ioBufSize 24 segs with
  | none =>
      have := (layout_eq_none_iff (by decide)).mp hlayout
      unfold ioBufSize at *
      omega
  | some body =>
      have hbody := layout_length hlayout
      have hmarked : opId ||| 0xFFFF0000 < 0x100000000 :=
        Nat.or_lt_two_pow (n := 32) hop (by decide)
      unfold fsMaxSegs at hcount
      unfold ioBufSize at hsize
      -- the reply behind its first word, and behind its header
      generalize hmark : opId ||| 0xFFFF0000 = mark at hmarked
      have hreply : buildResp hdr opId segs = (le32 (hdr.data0 % 0x80000000) ++
          le32 (24 + body.length) ++ le32 (hdr.channelSeq + 1) ++ le32 hdr.reserved) ++
            ((le32 mark ++ le32 segs.length) ++ body) := by
        unfold buildResp
        rw [hlayout, hmark]
        simp only [List.append_assoc]
      have hsecond : buildResp hdr opId segs = le32 (hdr.data0 % 0x80000000) ++
          (le32 (24 + body.length) ++ (le32 (hdr.channelSeq + 1) ++ le32 hdr.reserved ++
            le32 mark ++ le32 segs.length ++ body)) := by
        rw [hreply]
        simp only [List.append_assoc]
      have hlength : (buildResp hdr opId segs).length = 24 + body.length := by
        rw [hreply]
        simp only [List.length_append]
        show 4 + 4 + 4 + 4 + (4 + 4 + body.length) = _
        omega
      have hdrop : (buildResp hdr opId segs).drop headerSize =
          (le32 mark ++ le32 segs.length) ++ body := by
        rw [hreply]
        exact List.drop_left' rfl
      refine ⟨?_, ?_, ?_, ?_⟩
      · rw [hlength, hbody]
        unfold ioBufSize
        omega
      · rw [hlength, hsecond]
        exact (word_append (le32 (hdr.data0 % 0x80000000)) _ 0).trans (word_le32 (by omega) _)
      · rw [hreply, hmark, List.append_assoc (le32 mark)]
        exact (word_append (le32 (hdr.data0 % 0x80000000) ++ le32 (24 + body.length) ++
          le32 (hdr.channelSeq + 1) ++ le32 hdr.reserved) _ 0).trans (word_le32 hmarked _)
      · rw [hdrop, hmark]
        unfold fsParseReq
        have hcountWord : word (le32 mark ++ le32 segs.length ++ body) 4 = segs.length := by
          rw [List.append_assoc]
          exact (word_append (le32 mark) _ 0).trans (word_le32 (by omega) _)
        have hopWord : word (le32 mark ++ le32 segs.length ++ body) 0 = mark := by
          rw [List.append_assoc]
          exact word_le32 hmarked _
        have hparse := parseSegs_layout (by decide) hlayout (le32 mark ++ le32 segs.length)
        rw [if_neg, hcountWord, if_neg, hopWord]
        · show (parseSegs _ _ _ >>= fun a => _) = _
          rw [show (8 : Nat) = (le32 mark ++ le32 segs.length).length from rfl, hparse]
          rfl
        · unfold fsMaxSegs
          omega
        · simp only [List.length_append]
          show ¬ 4 + 4 + body.length < 8
          omega

/-- A reply that does not fit is empty. -/
theorem buildResp_empty (hdr : Header) (opId : Nat) {segs : List Bytes}
    (h : ioBufSize - 24 < segsSize segs) : buildResp hdr opId segs = [] := by
  unfold buildResp
  rw [(layout_eq_none_iff (by decide)).mpr (by unfold ioBufSize at *; omega)]

theorem fits_result (rc : Int) : Fits [leInt rc] :=
  (by decide : 1 ≤ fsMaxSegs ∧ 4 + padded 4 + 0 ≤ ioBufSize - 24)

/-! ### What is taken from files -/

/-- The bytes that an answer hands over. -/
def Sigma.bytes : Sigma Answer → Bytes
  | ⟨.read _ _, .ok bytes⟩ => bytes.val
  | _ => []

/-- **The bytes taken from files**, in the order of the calls. -/
def taken (entries : List (Sigma Answer)) : Bytes := entries.flatMap Sigma.bytes

/-- A program that takes nothing from files, with results in `P`. -/
def Yields {α : Type} (P : α → Prop) (x : Sys α) : Prop :=
  ∀ t past, Dialogue.Leads (fun past' r => taken past' = taken past ∧ P r.1) past (x t)

/-- A program that takes nothing. -/
abbrev Quiet {α : Type} (x : Sys α) : Prop := Yields (fun _ => True) x

section Rules

variable {α β : Type} {P : α → Prop} {Q : β → Prop}

theorem Yields.pure {a : α} (ha : P a) : Yields P (pure a : Sys α) := fun _ _ => ⟨rfl, ha⟩

theorem quiet_get : Quiet (get : Sys Tables) := fun _ _ => ⟨rfl, trivial⟩

theorem quiet_modify (f : Tables → Tables) : Quiet (modify f : Sys Unit) := fun _ _ => ⟨rfl, trivial⟩

theorem quiet_perform {c : Call} (hc : ∀ fd count, c ≠ .read fd count) : Quiet (perform c) := by
  intro t past answer
  refine ⟨?_, trivial⟩
  unfold taken
  rw [List.flatMap_append]
  cases c with
  | read fd count => exact absurd rfl (hc fd count)
  | _ => exact List.append_nil _

theorem Yields.bind {x : Sys α} {f : α → Sys β} (hx : Yields P x) (hf : ∀ a, P a → Yields Q (f a)) :
    Yields Q (x >>= f) := by
  intro t past
  rw [bind_apply, Dialogue.leads_bind]
  refine (hx t past).mono fun past' r hr => ?_
  rw [← hr.1]
  exact hf r.1 hr.2 r.2 past'

/-- The same without a look at the first result. -/
theorem Yields.after {x : Sys α} {f : α → Sys β} (hx : Quiet x) (hf : ∀ a, Yields Q (f a)) :
    Yields Q (x >>= f) := hx.bind fun a _ => hf a

/-- Behind a call that is no `read`. -/
theorem Yields.call {c : Call} {f : Answer c → Sys β} (hc : ∀ fd count, c ≠ .read fd count)
    (hf : ∀ a, Yields Q (f a)) : Yields Q (perform c >>= f) := (quiet_perform hc).after hf

/-- Behind a look at the tables. -/
theorem Yields.look {f : Tables → Sys β} (hf : ∀ t, Yields Q (f t)) :
    Yields Q (get >>= f) := quiet_get.after hf

/-- Behind a change of the tables. -/
theorem Yields.change {g : Tables → Tables} {f : Unit → Sys β} (hf : Yields Q (f ())) :
    Yields Q (modify g >>= f) := (quiet_modify g).after fun _ => hf

theorem Yields.quiet {x : Sys α} (hx : Yields P x) : Quiet x := fun t past =>
  (hx t past).mono fun _ _ h => ⟨h.1, trivial⟩

end Rules

/-! ### The operations that take nothing -/

theorem fsHandleOpen_quiet (real : Path) (flags : Nat) : Quiet (fsHandleOpen real flags) := by
  refine .look fun t => ?_
  split
  · exact .pure trivial
  refine .call (fun _ _ => nofun) fun answer => ?_
  split
  · exact .pure trivial
  · exact .change (.pure trivial)

theorem fsHandleClose_quiet (h : Int) : Quiet (fsHandleClose h) := by
  refine .look fun t => ?_
  split
  · exact .pure trivial
  · exact .call (fun _ _ => nofun) fun _ => .change (.pure trivial)

theorem fsHandleWrite_quiet (h : Int) (bytes : Bytes) : Quiet (fsHandleWrite h bytes) := by
  refine .look fun t => ?_
  split
  · exact .pure trivial
  refine .call (fun _ _ => nofun) fun answer => ?_
  split
  · exact .pure trivial
  · exact .pure trivial

theorem fsHandleSeek_quiet (h offset whence : Int) : Quiet (fsHandleSeek h offset whence) := by
  refine .look fun t => ?_
  split
  · exact .pure trivial
  split
  · exact .pure trivial
  refine .call (fun _ _ => nofun) fun answer => ?_
  split
  · exact .pure trivial
  · exact .pure trivial

theorem closeAllLoop_quiet (is : List (Fin fsHandleMax)) : Quiet (closeAllLoop is) := by
  induction is with
  | nil => exact .pure trivial
  | cons i rest ih =>
      refine .look fun t => ?_
      split
      · exact ih
      · exact .call (fun _ _ => nofun) fun _ => .change (ih.after fun _ => .pure trivial)

theorem fsFindOpen_quiet (dir pattern : Path) : Quiet (fsFindOpen dir pattern) := by
  refine .look fun t => ?_
  split
  · exact .pure trivial
  refine .call (fun _ _ => nofun) fun answer => ?_
  split
  · exact .pure trivial
  · exact .change (.pure trivial)

theorem fsFindClose_quiet (h : Int) : Quiet (fsFindClose h) := by
  refine .look fun t => ?_
  split
  · exact .pure trivial
  · exact .call (fun _ _ => nofun) fun _ => .change (.pure trivial)

/-- The name of a found file fits its buffer. -/
theorem fsFindNext_yields (fnmatch : Path → Path → Bool) (h : Int) :
    Yields (fun found => ∀ name, found = some name → name.length ≤ 255) (fsFindNext fnmatch h) := by
  have hshort : ∀ file : Path, ∀ name, some (file.take 255) = some name → name.length ≤ 255 := by
    rintro file _ ⟨⟩
    exact List.length_take_le _ _
  refine .look fun t => ?_
  split
  · exact .pure (fun _ => nofun)
  refine .change ?_
  split
  · exact .pure (fun _ => nofun)
  split
  · exact .pure (hshort _)
  · exact .call (fun _ _ => nofun) fun _ => .pure (hshort _)

theorem rmLoop_quiet {rm : Path → Sys Int} (hrm : ∀ file, Quiet (rm file)) (dir : Path)
    (names : List Path) : Quiet (rmLoop rm dir names) := by
  induction names with
  | nil => exact .pure trivial
  | cons name rest ih =>
      unfold rmLoop
      split
      · exact ih
      split
      · exact ih
      · exact (hrm _).after fun _ => ih

theorem fsRmRecursive_quiet (left : Nat) (file : Path) : Quiet (fsRmRecursive left file) := by
  induction left generalizing file with
  | zero => exact .pure trivial
  | succ left ih =>
      refine .call (fun _ _ => nofun) fun answer => ?_
      split
      · exact .pure trivial
      split
      · refine .call (fun _ _ => nofun) fun answer => ?_
        split
        · exact .pure trivial
        · exact .pure trivial
      refine .call (fun _ _ => nofun) fun answer => ?_
      split
      · exact .pure trivial
      refine (rmLoop_quiet ih _ _).after fun _ => ?_
      refine .call (fun _ _ => nofun) fun _ => .call (fun _ _ => nofun) fun answer => ?_
      split
      · exact .pure trivial
      · exact .pure trivial

theorem sizeLoop_quiet {size : Path → Sys Int} (hsize : ∀ file, Quiet (size file)) (dir : Path)
    (names : List Path) (total : Int) : Quiet (sizeLoop size dir names total) := by
  induction names generalizing total with
  | nil => exact .pure trivial
  | cons name rest ih =>
      unfold sizeLoop
      split
      · exact ih _
      split
      · exact ih _
      refine .call (fun _ _ => nofun) fun answer => ?_
      split
      · exact ih _
      split
      · exact (hsize _).after fun _ => ih _
      split
      · exact ih _
      · exact ih _

theorem fsFolderSize_quiet (left : Nat) (dir : Path) : Quiet (fsFolderSize left dir) := by
  induction left generalizing dir with
  | zero => exact .pure trivial
  | succ left ih =>
      refine .call (fun _ _ => nofun) fun answer => ?_
      split
      · exact .pure trivial
      · exact (sizeLoop_quiet ih _ _ _).after fun _ => .call (fun _ _ => nofun) fun _ => .pure trivial

theorem cmptSeek_quiet (asked : Bool) (fd offset : Nat) (whence : Int) :
    Quiet (cmptSeek asked fd offset whence) := by
  unfold cmptSeek
  split
  · refine .call (fun _ _ => nofun) fun answer => ?_
    split
    · exact .pure trivial
    · exact .pure trivial
  · exact .pure trivial

theorem cmptPut_quiet (req : CmptWriteReq) (fd : Nat) : Quiet (cmptPut req fd) := by
  unfold cmptPut
  split
  · refine .call (fun _ _ => nofun) fun answer => ?_
    split
    · exact .pure trivial
    · exact .pure trivial
  · exact .pure trivial

theorem cmptWriteOn_quiet (req : CmptWriteReq) (i : Fin maxOpenHandles) (fd : Nat) :
    Quiet (cmptWriteOn req i fd) := by
  refine (cmptSeek_quiet _ _ _ _).after fun sought => ?_
  split
  · exact .pure trivial
  refine (cmptPut_quiet _ _).after fun put => ?_
  split
  · exact .pure trivial
  split
  · exact .call (fun _ _ => nofun) fun _ => .change (.pure trivial)
  · exact .pure trivial

theorem handleCmptWrite_quiet (req : CmptWriteReq) (real : Path) :
    Quiet (handleCmptWrite req real) := by
  unfold handleCmptWrite
  split
  · split
    · split
      · exact .pure trivial
      refine .call (fun _ _ => nofun) fun answer => ?_
      split
      · exact .pure trivial
      refine .look fun t => ?_
      split
      · exact .call (fun _ _ => nofun) fun _ => .pure trivial
      · exact .change (cmptWriteOn_quiet _ _ _)
    · exact .pure trivial
  · refine .look fun t => ?_
    split
    · exact .pure trivial
    · exact cmptWriteOn_quiet _ _ _

theorem caseCall_quiet {answered : Sys (Except Errno Unit)} (h : Quiet answered)
    (result : Errno → Int) : Quiet (caseCall answered result) := by
  refine h.after fun answer => ?_
  split
  · exact .pure trivial
  · exact .pure trivial

theorem yields_result {rc : Sys Int} (h : Quiet rc) :
    Yields Fits (do return [leInt (← rc)] : Sys (List Bytes)) := h.after fun a => .pure (fits_result a)

theorem segsSize_cons (seg : Bytes) (rest : List Bytes) :
    segsSize (seg :: rest) = 4 + padded seg.length + segsSize rest := rfl

theorem segsSize_result (rc : Int) (rest : List Bytes) :
    segsSize (leInt rc :: rest) = 8 + segsSize rest := by
  have hpadded : padded (leInt rc).length = 4 := (by decide : padded 4 = 4)
  rw [segsSize_cons, hpadded]

/-- A result with one more segment of a bounded length. -/
theorem fits_data {rc : Int} {seg : Bytes} (h : seg.length ≤ 4060) : Fits [leInt rc, seg] := by
  refine ⟨by show 2 ≤ fsMaxSegs; decide, ?_⟩
  rw [segsSize_result, segsSize_cons]
  unfold ioBufSize padded segsSize
  simp only [List.map_nil, List.sum_nil]
  omega

/-- A result and a count with one more segment of a bounded length. -/
theorem fits_counted {rc count : Int} {seg : Bytes} (h : seg.length ≤ 4052) :
    Fits [leInt rc, leInt count, seg] := by
  refine ⟨by show 3 ≤ fsMaxSegs; decide, ?_⟩
  rw [segsSize_result, segsSize_result, segsSize_cons]
  unfold ioBufSize padded segsSize
  simp only [List.map_nil, List.sum_nil]
  omega

theorem openExEcho_length_le (req : Request) : (openExEcho req).length ≤ 4060 := by
  unfold openExEcho
  cases req.segOf 2 8 with
  | none => decide
  | some seg => exact Nat.le_trans (List.length_take_le _ _) (by decide)

/-- **Every other operation takes nothing and answers what fits.** -/
theorem stage2_yields {fnmatch : Path → Path → Bool} {op : Op} {req : Request}
    {name real real2 : Path} {answer : Sys (List Bytes)} (hread : op ≠ .read)
    (hcmptRead : op ≠ .cmptRead)
    (h : stage2 fnmatch op req name real real2 = some answer) : Yields Fits answer := by
  cases op with
  | read => exact absurd rfl hread
  | cmptRead => exact absurd rfl hcmptRead
  -- a handle, and the echo behind it, which is cut to its limit
  | «open» =>
      cases h
      exact yields_result (fsHandleOpen_quiet _ _)
  | openEx =>
      cases h
      exact (fsHandleOpen_quiet _ _).after fun rc => .pure (fits_data (openExEcho_length_le req))
  | close =>
      obtain ⟨seg, -, h⟩ := Option.bind_eq_some_iff.mp h
      cases h
      exact yields_result (fsHandleClose_quiet _)
  | findClose =>
      obtain ⟨seg, -, h⟩ := Option.bind_eq_some_iff.mp h
      cases h
      exact yields_result (fsFindClose_quiet _)
  | closeAll | closeAll2 =>
      cases h
      exact yields_result ((closeAllLoop_quiet _).after fun _ => .pure trivial)
  -- a result with a number or without
  | seek =>
      obtain ⟨h', -, h⟩ := Option.bind_eq_some_iff.mp h
      obtain ⟨off, -, h⟩ := Option.bind_eq_some_iff.mp h
      obtain ⟨whence, -, h⟩ := Option.bind_eq_some_iff.mp h
      cases h
      refine yields_result ((fsHandleSeek_quiet _ _ _).after fun pos => ?_)
      split
      · exact .pure trivial
      · exact .pure trivial
  -- the code, and the count where something was written
  | write =>
      obtain ⟨bytes, -, h⟩ := Option.bind_eq_some_iff.mp h
      obtain ⟨h', -, h⟩ := Option.bind_eq_some_iff.mp h
      cases h
      refine (fsHandleWrite_quiet _ _).after fun put => ?_
      split
      · exact .pure (fits_data (by decide))
      · exact .pure (fits_data (by show 4 ≤ 4060; decide))
  -- a call or two, and then a result
  | getAttributes =>
      cases h
      refine yields_result (.call (fun _ _ => nofun) fun answer => ?_)
      split
      · exact .pure trivial
      · exact .call (fun _ _ => nofun) fun _ => .pure trivial
  | createDir | removeDir | delete | rename | move =>
      cases h
      exact yields_result (caseCall_quiet (quiet_perform fun _ _ => by simp) _)
  | xdelete =>
      cases h
      exact yields_result (fsRmRecursive_quiet _ _)
  | getFileSize =>
      cases h
      refine .call (fun _ _ => nofun) fun answer => ?_
      split
      · exact .pure (fits_data (by decide))
      · exact .pure (fits_data (by show 4 ≤ 4060; decide))
  | getFolderSize =>
      cases h
      exact yields_result ((fsFolderSize_quiet _ _).after fun _ => .pure trivial)
  | count =>
      cases h
      refine yields_result (Yields.after ?_ fun _ => .pure trivial)
      refine .call (fun _ _ => nofun) fun answer => ?_
      split
      · exact .pure trivial
      · exact .call (fun _ _ => nofun) fun _ => .pure trivial
  | findFirst =>
      cases h
      exact yields_result (fsFindOpen_quiet _ _)
  -- a found name is no longer than a path
  | findNext =>
      obtain ⟨seg, -, h⟩ := Option.bind_eq_some_iff.mp h
      cases h
      refine (fsFindNext_yields _ _).bind fun found hfound => ?_
      split
      · exact .pure (fits_result _)
      · exact .pure (fits_counted (Nat.le_trans (hfound _ rfl) (by decide)))
  | getClusterSize =>
      cases h
      refine yields_result ?_
      unfold caseGetClusterSize
      split
      · exact .pure trivial
      refine .call (fun _ _ => nofun) fun answer => ?_
      split
      · exact .pure trivial
      · exact .pure trivial
  -- the fixed records: a stat, and the 21 words of a disk
  | getFileDetail =>
      cases h
      refine .call (fun _ _ => nofun) fun answer => ?_
      split
      · exact .pure (fits_data (by decide))
      · refine .call (fun _ _ => nofun) fun _ => .pure (fits_data ?_)
        show 4 + 4 + 4 + 12 ≤ 4060
        decide
  | getDiskInfo =>
      cases h
      refine .call (fun _ _ => nofun) fun answer => ?_
      split
      · exact .pure (fits_data (by decide))
      · exact .pure (fits_data (by show 84 ≤ 4060; decide))
  | cmptWrite =>
      obtain ⟨seg, -, h⟩ := Option.bind_eq_some_iff.mp h
      cases h
      exact yields_result ((handleCmptWrite_quiet _ _).after fun _ => .pure trivial)
  -- the fixed answers
  | restore | getDrive | otpQueryLength | otpRead | otpWrite | otpLock | lf | cdf | sdf | uk
  | binRegion =>
      cases h
      exact yields_result (.pure trivial)

/-! ### The operations that read -/

/-- The requested length of a compound read leaves room for its reply. -/
def CmptReadReq.fits (creq : CmptReadReq) : Bool :=
  !creq.opidMap.testBit 0 || !creq.opidMap.testBit 3 ||
    (decide (0 < creq.length) && decide (creq.length ≤ 4060))

theorem taken_snoc (past : List (Sigma Answer)) (entry : Sigma Answer) :
    taken (past ++ [entry]) = taken past ++ Sigma.bytes entry := by
  unfold taken
  rw [List.flatMap_append, List.flatMap_singleton]

/-- **`Read` carries what it takes** when its count leaves room for the reply. -/
theorem caseRead_leads {h want : Int} {t : Tables}
    (hfits : (entry t.fsHandles h).isNone = true ∨ (0 ≤ want ∧ want ≤ 4052)) :
    Dialogue.Leads (fun past r => Fits r.1 ∧ taken past = r.1.getD 2 []) [] (caseRead h want t) := by
  simp only [caseRead, fsHandleRead, bind_apply, get_apply, Dialogue.ret_bind]
  cases hentry : entry t.fsHandles h with
  | none => exact ⟨fits_result _, rfl⟩
  | some slot =>
      obtain ⟨hlow, hhigh⟩ : 0 ≤ want ∧ want ≤ 4052 := by
        rcases hfits with hnone | hwant
        · rw [hentry] at hnone
          cases hnone
        · exact hwant
      intro answer
      cases answer with
      | error e => exact ⟨fits_result _, rfl⟩
      | ok bytes =>
          have hcount : bytes.val.length ≤ 4052 := by
            have hle := bytes.property
            unfold ioBufSize at hle
            split_ifs at hle with hclamp
            · omega
            · omega
          exact ⟨fits_counted hcount, by rw [taken_snoc]; rfl⟩

theorem dataSegs_fits {rc : Int} {data : Bytes} (h : data.length ≤ 4060) : Fits (dataSegs rc data) := by
  unfold dataSegs
  split
  · exact fits_result rc
  · exact fits_data h

theorem dataSegs_getD (rc : Int) (data : Bytes) : (dataSegs rc data).getD 1 [] = data := by
  unfold dataSegs
  split
  · rename_i hempty
    exact hempty.symm
  · rfl

/-- **A compound read carries what it takes** when its length leaves room for the reply. -/
theorem caseCmptRead_leads {creq : CmptReadReq} (hfits : creq.fits = true) (real : Path)
    (t : Tables) :
    Dialogue.Leads (fun past r => Fits r.1 ∧ taken past = r.1.getD 1 []) []
      (caseCmptRead creq real t) := by
  unfold caseCmptRead
  rw [bind_apply, Dialogue.leads_bind]
  show Dialogue.Leads (fun past r =>
    Fits (dataSegs r.1.1 (if r.1.1 = fsNoError then r.1.2 else [])) ∧
      taken past = (dataSegs r.1.1 (if r.1.1 = fsNoError then r.1.2 else [])).getD 1 []) []
    (handleCmptRead creq real t)
  -- a refusal carries nothing, and nothing was taken
  have hempty : ∀ (past : List (Sigma Answer)) (rc : Int), taken past = [] →
      Fits (dataSegs rc (if rc = fsNoError then [] else [])) ∧
        taken past = (dataSegs rc (if rc = fsNoError then [] else [])).getD 1 [] := by
    intro past rc hpast
    rw [ite_self, dataSegs_getD]
    exact ⟨dataSegs_fits (by decide), hpast⟩
  have herror : ∀ (past : List (Sigma Answer)) (e : Errno), taken past = [] →
      Fits (dataSegs (errnoToFsResult e) (if errnoToFsResult e = fsNoError then [] else [])) ∧
        taken past = (dataSegs (errnoToFsResult e)
          (if errnoToFsResult e = fsNoError then [] else [])).getD 1 [] :=
    fun past e hpast => hempty past _ hpast
  unfold handleCmptRead
  cases hopen : creq.opidMap.testBit 0 with
  | false => exact hempty [] _ rfl
  | true =>
      rw [if_pos rfl]
      intro answer
      cases answer with
      | error e => exact herror _ e rfl
      | ok fd =>
          show Dialogue.Leads _ _
            (cmptSeek (creq.opidMap.testBit 2) fd creq.offset creq.whence t >>= _)
          rw [Dialogue.leads_bind]
          -- the file was opened: behind the seek nothing is taken either
          refine (cmptSeek_quiet _ fd _ _ t _).mono fun past sought hsought => ?_
          have hpast : taken past = [] := hsought.1
          obtain ⟨outcome, t'⟩ := sought
          cases outcome with
          | some e =>
              intro _
              exact herror _ e (by rw [taken_snoc, hpast]; rfl)
          | none =>
              dsimp only
              cases hread : creq.opidMap.testBit 3 with
              | false =>
                  intro _
                  exact hempty _ _ (by rw [taken_snoc, hpast]; rfl)
              | true =>
                  intro answer
                  cases answer with
                  | error e =>
                      intro _
                      exact herror _ e (by rw [taken_snoc, taken_snoc, hpast]; rfl)
                  | ok bytes =>
                      intro _
                      obtain ⟨data, hle⟩ := bytes
                      -- what is read is no more than was asked for
                      have hcount : data.length ≤ 4060 := by
                        simp only [CmptReadReq.fits, hopen, hread, Bool.not_true, Bool.false_or,
                          Bool.and_eq_true, decide_eq_true_eq] at hfits
                        rw [if_pos ⟨hfits.1, Nat.le_trans hfits.2 (by decide)⟩] at hle
                        exact Nat.le_trans hle hfits.2
                      show Fits (dataSegs fsNoError data) ∧ _ =
                        (dataSegs fsNoError data).getD 1 []
                      rw [dataSegs_getD]
                      exact ⟨dataSegs_fits hcount, by
                        rw [taken_snoc, taken_snoc, hpast]
                        exact List.append_nil _⟩

/-! ### Datagrams -/

/-- The operation that a reply names. -/
def requestOp (payload : Bytes) : Nat := if payload.length ≥ 4 then word payload 0 else 0

/-- The segment of the reply that carries file data: behind the result for a compound read,
behind the result and the count for `Read`. -/
def dataSegment (payload : Bytes) : Option Nat :=
  if sniffsWrite payload then none
  else if sniffsRead payload then some 1
  else
    match (fsParseReq payload).bind fun req => Op.ofId req.opId with
    | some .read => some 2
    | some .cmptRead => some 1
    | _ => none

/-- The file data in a reply. -/
def carried (payload : Bytes) (segs : List Bytes) : Bytes :=
  (dataSegment payload).elim [] fun i => segs.getD i []

/-- **One complete answer**, which carries what was taken from files. -/
def Answered (payload : Bytes) (entries : List (Sigma Answer)) (result : Option Bytes) : Prop :=
  ∃ reply segs, result = some reply ∧ Complete (requestOp payload) segs reply ∧
    taken entries = carried payload segs

/-- **The condition**: a read, as the service takes it, names no open file, or asks for a length
that leaves room for the reply. -/
def readsFit (t : Tables) (payload : Bytes) : Bool :=
  if sniffsWrite payload then true
  else if sniffsRead payload then (CmptReadReq.ofBytes (payload.drop 0x30)).fits
  else
    match fsParseReq payload with
    | none => true
    | some req =>
        match Op.ofId req.opId with
        | some .read =>
            match req.segOf 0 4, req.segOf 1 4 with
            | some h, some want =>
                (entry t.fsHandles (signed (word h 0))).isNone ||
                  (decide (0 ≤ signed (word want 0)) && decide (signed (word want 0) ≤ 4052))
            | _, _ => true
        | some .cmptRead =>
            match stage1 .cmptRead req, req.segOf 1 cmptReadSize with
            | .found _ _ _, some seg => (CmptReadReq.ofBytes seg).fits
            | _, _ => true
        | _ => true

/-- A datagram that `main` does not drop. -/
structure Heard (datagram : Bytes) : Prop where
  header : headerSize ≤ datagram.length
  size : datagram.length ≤ ioBufSize
  channel : (Header.ofBytes datagram).channel = ccciFsChannelRx
  whole : (Header.ofBytes datagram).continues = false

theorem Heard.kept {datagram : Bytes} (h : Heard datagram) : dropped datagram = false := by
  unfold dropped
  rw [decide_eq_false (Nat.not_lt_of_le h.header), decide_eq_false (not_not_intro h.channel),
    h.whole]
  rfl

theorem requestOp_lt (payload : Bytes) : requestOp payload < 0x100000000 := by
  unfold requestOp
  split
  · exact word_lt _ _
  · decide

theorem parsed_requestOp {payload : Bytes} {req : Request} (h : fsParseReq payload = some req) :
    req.opId = requestOp payload := by
  unfold fsParseReq at h
  split at h
  · cases h
  rename_i hlength
  split at h
  · cases h
  obtain ⟨segs, -, hreq⟩ := Option.bind_eq_some_iff.mp h
  cases hreq
  unfold requestOp
  rw [if_pos (by omega)]

section Serve

variable {fnmatch : Path → Path → Bool} {datagram : Bytes}

theorem serve_dropped (h : dropped datagram = true) : serve fnmatch datagram = pure none := by
  unfold dropped at h
  unfold serve
  split
  · rfl
  rename_i hheader
  dsimp only
  split
  · rfl
  rename_i hchannel
  rw [decide_eq_false hheader, decide_eq_false hchannel] at h
  exact if_pos h

/-- **One turn of the loop** for a datagram that is not dropped. -/
theorem serve_kept (h : dropped datagram = false) :
    serve fnmatch datagram =
      (let hdr := Header.ofBytes datagram
      let payload := datagram.drop headerSize
      if sniffsWrite payload then do
        let (rc, _) ← handleCmptWrite (.ofBytes payload) unknownFile
        return some (buildResultResp hdr (requestOp payload) rc)
      else if sniffsRead payload then do
        return some (buildResp hdr (requestOp payload)
          (← caseCmptRead (.ofBytes (payload.drop 0x30)) unknownFile))
      else
        match fsParseReq payload with
        | none => return some (buildResultResp hdr (requestOp payload) fsErrEnoentMapped)
        | some req =>
            match Op.ofId req.opId with
            | none => return some (buildResultResp hdr req.opId fsErrEnoentMapped)
            | some op => do return some (← dispatch fnmatch hdr op req)) := by
  unfold dropped at h
  rw [Bool.or_eq_false_iff, Bool.or_eq_false_iff, decide_eq_false_iff_not,
    decide_eq_false_iff_not] at h
  obtain ⟨⟨hheader, hchannel⟩, hwhole⟩ := h
  unfold serve
  rw [if_neg hheader]
  dsimp only
  rw [if_neg hchannel, if_neg (by rw [hwhole]; decide)]
  rfl

theorem answered_of_fits (hdr : Header) {payload : Bytes} {segs : List Bytes}
    {entries : List (Sigma Answer)} (hfits : Fits segs)
    (htaken : taken entries = carried payload segs) :
    Answered payload entries (some (buildResp hdr (requestOp payload) segs)) :=
  ⟨_, segs, rfl, buildResp_complete hdr (requestOp_lt payload) hfits, htaken⟩

/-- A program that takes nothing is answered completely. -/
theorem Yields.answered {x : Sys (List Bytes)} (hx : Yields Fits x) (hdr : Header)
    {payload : Bytes} (hnone : dataSegment payload = none) (t : Tables) :
    Dialogue.Leads (fun entries r => Answered payload entries r.1) []
      ((do return some (buildResp hdr (requestOp payload) (← x)) : Sys (Option Bytes)) t) := by
  rw [bind_apply, Dialogue.leads_bind]
  refine (hx t []).mono fun entries r hr => answered_of_fits hdr hr.2 ?_
  rw [hr.1]
  unfold carried
  rw [hnone]
  rfl

/-- A program that carries what it takes is answered completely. -/
theorem Leads.answered {x : Sys (List Bytes)} {t : Tables} {i : Nat}
    (hx : Dialogue.Leads (fun past r => Fits r.1 ∧ taken past = r.1.getD i []) [] (x t))
    (hdr : Header) {payload : Bytes} (hsome : dataSegment payload = some i) :
    Dialogue.Leads (fun entries r => Answered payload entries r.1) []
      ((do return some (buildResp hdr (requestOp payload) (← x)) : Sys (Option Bytes)) t) := by
  rw [bind_apply, Dialogue.leads_bind]
  refine hx.mono fun entries r hr => answered_of_fits hdr hr.1 ?_
  rw [hr.2]
  unfold carried
  rw [hsome]
  rfl

/-- An answer of one result code, without a call. -/
theorem answered_result (hdr : Header) (payload : Bytes) (rc : Int) :
    Answered payload [] (some (buildResultResp hdr (requestOp payload) rc)) := by
  refine answered_of_fits hdr (fits_result rc) ?_
  unfold carried dataSegment
  split_ifs
  · rfl
  · rfl
  · split
    · rfl
    · rfl
    · rfl

/-- A request that is dispatched. -/
theorem dispatch_leads {payload : Bytes} {req : Request} {op : Op} {t : Tables}
    (hwrite : sniffsWrite payload = false) (hread : sniffsRead payload = false)
    (hparsed : fsParseReq payload = some req) (hknown : Op.ofId req.opId = some op)
    (hfit : readsFit t payload = true) (hdr : Header) :
    Dialogue.Leads (fun entries r => Answered payload entries r.1) []
      ((do return some (← dispatch fnmatch hdr op req) : Sys (Option Bytes)) t) := by
  have hop := parsed_requestOp hparsed
  -- Only the two reads carry data in a segment of their reply.
  have hsegment : dataSegment payload =
      match op with
      | .read => some 2
      | .cmptRead => some 1
      | _ => none := by
    unfold dataSegment
    rw [hwrite, hread, hparsed]
    simp only [Bool.false_eq_true, if_false, Option.bind_some, hknown]
    cases op <;> rfl
  unfold dispatch
  cases hstage : stage1 op req with
  | unusable =>
      rw [hop]
      exact answered_result hdr payload _
  | refused rc =>
      rw [hop]
      exact answered_result hdr payload _
  | found name real real2 =>
      dsimp only
      cases hanswer : stage2 fnmatch op req name real real2 with
      | none =>
          rw [hop]
          exact answered_result hdr payload _
      | some answer =>
          rw [hop]
          simp only [bind_assoc, pure_bind]
          -- All other operations answer with what they have.
          by_cases hplain : op ≠ .read ∧ op ≠ .cmptRead
          · have hnone : dataSegment payload = none := by
              rw [hsegment]
              -- The hypothesis on the length is needed for the two reads alone.
              cases op with
              | read => exact absurd rfl hplain.1
              | cmptRead => exact absurd rfl hplain.2
              | _ => rfl
            exact (stage2_yields hplain.1 hplain.2 hanswer).answered hdr hnone t
          · cases op with
            | read =>
                obtain ⟨h, hh, hanswer⟩ := Option.bind_eq_some_iff.mp hanswer
                obtain ⟨want, hwant, hanswer⟩ := Option.bind_eq_some_iff.mp hanswer
                cases hanswer
                refine Leads.answered (caseRead_leads ?_) hdr hsegment
                simpa [readsFit, hwrite, hread, hparsed, hknown, hh, hwant] using hfit
            | cmptRead =>
                obtain ⟨seg, hseg, hanswer⟩ := Option.bind_eq_some_iff.mp hanswer
                cases hanswer
                refine Leads.answered (caseCmptRead_leads ?_ real t) hdr hsegment
                simpa [readsFit, hwrite, hread, hparsed, hknown, hstage, hseg] using hfit
            | _ => exact absurd ⟨nofun, nofun⟩ hplain

/-- **Whatever the file system does**, a datagram that meets the condition is answered. -/
theorem serve_leads (h : Heard datagram) {t : Tables}
    (hfit : readsFit t (datagram.drop headerSize) = true) :
    Dialogue.Leads (fun entries r => Answered (datagram.drop headerSize) entries r.1) []
      (serve fnmatch datagram t) := by
  rw [serve_kept h.kept]
  generalize datagram.drop headerSize = payload at hfit
  generalize Header.ofBytes datagram = hdr
  dsimp only
  -- The two sniffed requests are answered before any parsing.
  cases hwrite : sniffsWrite payload with
  | true =>
      have hnone : dataSegment payload = none := by
        unfold dataSegment
        rw [hwrite]
        rfl
      have hquiet : Quiet (do return (← handleCmptWrite (.ofBytes payload) unknownFile).1) :=
        (handleCmptWrite_quiet _ _).after fun _ => .pure trivial
      have hanswered := (yields_result hquiet).answered hdr hnone t
      simp only [bind_assoc, pure_bind] at hanswered
      exact hanswered
  | false =>
      cases hread : sniffsRead payload with
      | true =>
          have hsome : dataSegment payload = some 1 := by
            unfold dataSegment
            rw [hwrite, hread]
            rfl
          have hfits : (CmptReadReq.ofBytes (payload.drop 0x30)).fits = true := by
            simpa [readsFit, hwrite, hread] using hfit
          exact Leads.answered (caseCmptRead_leads hfits unknownFile t) hdr hsome
      | false =>
          rw [if_neg Bool.false_ne_true, if_neg Bool.false_ne_true]
          -- A request that cannot be parsed, or whose operation is not known, is refused.
          cases hparsed : fsParseReq payload with
          | none => exact answered_result hdr payload _
          | some req =>
              dsimp only
              cases hknown : Op.ofId req.opId with
              | none =>
                  rw [parsed_requestOp hparsed]
                  exact answered_result hdr payload _
              | some op => exact dispatch_leads hwrite hread hparsed hknown hfit hdr

/-! ### Replies that do not fit -/

/-- A request whose segments do not fit is not answered. -/
theorem not_answered {x : Sys (List Bytes)} {t : Tables}
    (hx : ioBufSize - 24 < segsSize (Dialogue.record succeeds () (x t)).2.1.1) (hdr : Header)
    (payload : Bytes) :
    ¬ Answered payload
      (Dialogue.record succeeds ()
        ((do return some (buildResp hdr (requestOp payload) (← x)) : Sys (Option Bytes)) t)).1
      (Dialogue.record succeeds ()
        ((do return some (buildResp hdr (requestOp payload) (← x)) : Sys (Option Bytes)) t)).2.1.1 := by
  rintro ⟨reply, segs, hreply, hcomplete, -⟩
  have hresult : (Dialogue.record succeeds ()
      ((do return some (buildResp hdr (requestOp payload) (← x)) : Sys (Option Bytes)) t)).2.1 =
      (some (buildResp hdr (requestOp payload) (Dialogue.record succeeds () (x t)).2.1.1),
        (Dialogue.record succeeds () (x t)).2.1.2) :=
    Dialogue.record_map succeeds () (x t) fun r =>
      (some (buildResp hdr (requestOp payload) r.1), r.2)
  rw [hresult, buildResp_empty hdr _ hx] at hreply
  cases hreply
  exact absurd hcomplete.size.1 (by decide)

theorem segsSize_pair (rc : Int) (seg : Bytes) : segsSize [leInt rc, seg] = 12 + padded seg.length := by
  rw [segsSize_result, segsSize_cons]
  show 8 + (4 + padded seg.length + 0) = _
  omega

/-- A compound read of too many bytes outgrows the reply. -/
theorem caseCmptRead_overflows {creq : CmptReadReq} (hfits : creq.fits = false) (real : Path)
    (t : Tables) :
    ioBufSize - 24 < segsSize (Dialogue.record succeeds () (caseCmptRead creq real t)).2.1.1 := by
  simp only [CmptReadReq.fits, Bool.or_eq_false_iff, Bool.not_eq_false', Bool.and_eq_false_iff,
    decide_eq_false_iff_not] at hfits
  obtain ⟨⟨hopen, hread⟩, hlength⟩ := hfits
  have hsegs : (Dialogue.record succeeds () (caseCmptRead creq real t)).2.1.1 =
      dataSegs fsNoError (List.replicate (if 0 < creq.length ∧ creq.length ≤ ioBufSize
        then creq.length else ioBufSize) 0) := by
    unfold caseCmptRead handleCmptRead cmptSeek
    simp only [hopen, hread, if_true]
    cases creq.opidMap.testBit 2 with
    | true => rfl
    | false => rfl
  have hlarge : 4060 < (if 0 < creq.length ∧ creq.length ≤ ioBufSize then creq.length
      else ioBufSize) := by
    unfold ioBufSize
    split_ifs <;> omega
  generalize (if 0 < creq.length ∧ creq.length ≤ ioBufSize then creq.length
    else ioBufSize) = count at hsegs hlarge
  have hne : List.replicate count (0 : UInt8) ≠ [] := by
    intro h
    rw [List.replicate_eq_nil_iff] at h
    omega
  rw [hsegs]
  unfold dataSegs
  rw [if_neg hne, segsSize_pair, List.length_replicate]
  unfold ioBufSize padded
  omega

theorem caseRead_overflows {h want : Int} {t : Tables} {slot : Fin fsHandleMax × Nat}
    (hentry : entry t.fsHandles h = some slot) (hwant : ¬ (0 ≤ want ∧ want ≤ 4052)) :
    ioBufSize - 24 < segsSize (Dialogue.record succeeds () (caseRead h want t)).2.1.1 := by
  generalize hcount : (if want < 0 ∨ want > ioBufSize then ioBufSize else want.toNat) = count
  have hlarge : 4052 < count := by
    rw [← hcount]
    unfold ioBufSize
    split_ifs <;> omega
  have hsegs : (Dialogue.record succeeds () (caseRead h want t)).2.1.1 =
      [leInt fsNoError, leInt (List.replicate count (0 : UInt8)).length, List.replicate count 0] := by
    rw [← hcount]
    simp only [caseRead, fsHandleRead, bind_apply, get_apply, Dialogue.ret_bind, hentry]
    rfl
  rw [hsegs, segsSize_result, segsSize_pair, List.length_replicate]
  unfold ioBufSize padded
  omega

/-- A request that is dispatched to a read whose reply does not fit. -/
theorem dispatch_not_answered {payload : Bytes} {req : Request} {op : Op} {t : Tables}
    (hwrite : sniffsWrite payload = false) (hread : sniffsRead payload = false)
    (hparsed : fsParseReq payload = some req) (hknown : Op.ofId req.opId = some op)
    (hfit : readsFit t payload = false) (hdr : Header) :
    ¬ Answered payload
      (Dialogue.record succeeds ()
        ((do return some (← dispatch fnmatch hdr op req) : Sys (Option Bytes)) t)).1
      (Dialogue.record succeeds ()
        ((do return some (← dispatch fnmatch hdr op req) : Sys (Option Bytes)) t)).2.1.1 := by
  have hop := parsed_requestOp hparsed
  unfold readsFit at hfit
  simp only [hwrite, hread, hparsed, hknown, Bool.false_eq_true, if_false] at hfit
  unfold dispatch
  rw [hop]
  cases op with
  -- a plain read: the handle is open, and more is wanted than fits
  | read =>
      dsimp only at hfit
      cases hh : req.segOf 0 4 with
      | none =>
          rw [hh] at hfit
          cases hfit
      | some h =>
          cases hwant : req.segOf 1 4 with
          | none =>
              rw [hh, hwant] at hfit
              cases hfit
          | some want =>
              simp only [hh, hwant, Bool.or_eq_false_iff, Bool.and_eq_false_iff,
                decide_eq_false_iff_not] at hfit
              obtain ⟨hopen, hlarge⟩ := hfit
              have hstage : stage1 .read req = .found [] [] [] := rfl
              have hanswer : stage2 fnmatch .read req [] [] [] =
                  some (caseRead (signed (word h 0)) (signed (word want 0))) := by
                show (req.segOf 0 4).bind _ = _
                rw [hh]
                show (req.segOf 1 4).bind _ = _
                rw [hwant]
                rfl
              rw [hstage]
              dsimp only
              rw [hanswer]
              simp only [bind_assoc, pure_bind]
              have hlarge : ¬ (0 ≤ signed (word want 0) ∧ signed (word want 0) ≤ 4052) := by
                omega
              cases hslot : entry t.fsHandles (signed (word h 0)) with
              | none =>
                  rw [hslot] at hopen
                  cases hopen
              | some slot => exact not_answered (caseRead_overflows hslot hlarge) hdr payload
  -- a compound read, whose count does not fit
  | cmptRead =>
      dsimp only at hfit
      cases hstage : stage1 .cmptRead req with
      | unusable =>
          rw [hstage] at hfit
          cases hfit
      | refused rc =>
          rw [hstage] at hfit
          cases hfit
      | found name real real2 =>
          cases hseg : req.segOf 1 cmptReadSize with
          | none =>
              rw [hstage, hseg] at hfit
              cases hfit
          | some seg =>
              rw [hstage, hseg] at hfit
              have hanswer : stage2 fnmatch .cmptRead req name real real2 =
                  some (caseCmptRead (.ofBytes seg) real) := by
                show (req.segOf 1 cmptReadSize).bind _ = _
                rw [hseg]
                rfl
              dsimp only
              rw [hanswer]
              simp only [bind_assoc, pure_bind]
              exact not_answered (caseCmptRead_overflows hfit real t) hdr payload
  -- every other operation fits
  | _ => cases hfit

/-- A datagram with a read that leaves no room for its reply is not answered where every call
succeeds. -/
theorem serve_not_answered (h : Heard datagram) {t : Tables}
    (hfit : readsFit t (datagram.drop headerSize) = false) :
    ¬ Answered (datagram.drop headerSize)
      (Dialogue.record succeeds () (serve fnmatch datagram t)).1
      (Dialogue.record succeeds () (serve fnmatch datagram t)).2.1.1 := by
  rw [serve_kept h.kept]
  generalize datagram.drop headerSize = payload at hfit
  generalize Header.ofBytes datagram = hdr
  dsimp only
  cases hwrite : sniffsWrite payload with
  | true =>
      unfold readsFit at hfit
      rw [hwrite] at hfit
      cases hfit
  | false =>
      rw [if_neg Bool.false_ne_true]
      cases hread : sniffsRead payload with
      | true =>
          unfold readsFit at hfit
          rw [hwrite, hread] at hfit
          exact not_answered (caseCmptRead_overflows hfit unknownFile t) hdr payload
      | false =>
          rw [if_neg Bool.false_ne_true]
          cases hparsed : fsParseReq payload with
          | none =>
              unfold readsFit at hfit
              rw [hwrite, hread, hparsed] at hfit
              cases hfit
          | some req =>
              dsimp only
              cases hknown : Op.ofId req.opId with
              | none =>
                  unfold readsFit at hfit
                  simp only [hwrite, hread, hparsed, hknown, Bool.false_eq_true, if_false] at hfit
                  cases hfit
              | some op => exact dispatch_not_answered hwrite hread hparsed hknown hfit hdr

/-- **Which datagrams are answered completely.** For every datagram that `main` does not drop
and all tables: whatever the file system does there is one complete reply, which carries the
bytes that were taken from files, exactly when a read leaves room for its reply. -/
theorem serve_answered_iff (fnmatch : Path → Path → Bool) (h : Heard datagram) (t : Tables) :
    (∀ (ω : Type) (env : Dialogue.Environment Call Answer ω) (w : ω),
        Answered (datagram.drop headerSize)
          (Dialogue.record env w (serve fnmatch datagram t)).1
          (Dialogue.record env w (serve fnmatch datagram t)).2.1.1) ↔
      readsFit t (datagram.drop headerSize) = true := by
  constructor
  · intro hanswered
    by_contra hfit
    rw [Bool.not_eq_true] at hfit
    exact serve_not_answered h hfit (hanswered Unit succeeds ())
  · intro hfit ω env w
    exact (serve_leads h hfit).record env w

end Serve

/-- The tables after the first `Open`. -/
def oneOpen : Tables :=
  { Tables.init with fsHandles := Function.update Tables.init.fsHandles ⟨1, by decide⟩ (some 7) }

/-- `Read` from the first handle. -/
def readDatagram (want : Nat) : Bytes := datagramOf [0x1003, 2, 4, 1, 4, want] []

theorem readDatagram_heard (want : Nat) : Heard (readDatagram want) where
  header := Nat.le_of_ble_eq_true rfl
  size := Nat.le_of_ble_eq_true rfl
  channel := rfl
  whole := by
    show Nat.testBit 0 31 = false
    decide

/-- The longest read with room for its reply. -/
theorem serve_answered_iff_read :
    Heard (readDatagram 4052) ∧
      ∀ (ω : Type) (env : Dialogue.Environment Call Answer ω) (w : ω),
        Answered ((readDatagram 4052).drop headerSize)
          (Dialogue.record env w (serve (fun _ _ => false) (readDatagram 4052) oneOpen)).1
          (Dialogue.record env w (serve (fun _ _ => false) (readDatagram 4052) oneOpen)).2.1.1 :=
  ⟨readDatagram_heard _,
    (serve_answered_iff _ (readDatagram_heard _) oneOpen).mpr (by decide)⟩

/-- A read of one more byte takes it, and writes nothing. -/
theorem serve_not_every_answered :
    ¬ ∀ (fnmatch : Path → Path → Bool) (datagram : Bytes) (t : Tables), Heard datagram →
      ∀ (ω : Type) (env : Dialogue.Environment Call Answer ω) (w : ω),
        Answered (datagram.drop headerSize)
          (Dialogue.record env w (serve fnmatch datagram t)).1
          (Dialogue.record env w (serve fnmatch datagram t)).2.1.1 := by
  intro hclaim
  have hheard := readDatagram_heard 4053
  have hfit : readsFit oneOpen ((readDatagram 4053).drop headerSize) = false := by decide
  exact serve_not_answered hheard hfit (hclaim (fun _ _ => false) _ oneOpen hheard Unit succeeds ())

end Mindone.Fsd
