import Mindone.Wfca.Reader

/-!
# Mindone.Wfca.ReaderLaws

**The reader follows the grammar**, however the device cuts the stream. The state of the reader after
some bytes of an unfinished unit is a matter of these bytes alone (`Partial`), and each read takes the
state of the bytes before it to that of the bytes with it, or ends the unit and handles what the
grammar says it means. No read writes outside of the frame or asks for nothing, and no handler reads
behind its body.
-/

namespace Mindone.Wfca.Imsa

open Lib

variable {stream current chunk : Bytes} {reader : Reader} {size : Nat}

/-! ### The grammar -/

/-- The size that the reader takes for a type. -/
theorem imsaBodySizeFor_cases (type : UInt8) :
    (bodySize type = none ∧ imsaBodySizeFor type = -1) ∨
      ∃ size, bodySize type = some size ∧ size ≤ 56 ∧
        (if imsaBodySizeFor type = -10 then imsaBodyPktLossRptBase
          else if imsaBodySizeFor type = -128 then imsaBodySendHdr
          else imsaBodySizeFor type : Int) = size := by
  unfold bodySize imsaBodySizeFor
  by_cases hfilter : type = imsaMsgFilterRegisterReq ∨ type = imsaMsgFilterUpdateReq
  · simp only [if_pos hfilter]
    exact .inr ⟨52, rfl, by decide, by decide⟩
  by_cases hderegister : type = imsaMsgFilterDeregisterReq
  · simp only [if_neg hfilter, if_pos hderegister]
    exact .inr ⟨8, rfl, by decide, by decide⟩
  by_cases hreset : type = imsaMsgResetReq
  · simp only [if_neg hfilter, if_neg hderegister, if_pos hreset]
    exact .inr ⟨0, rfl, by decide, by decide⟩
  by_cases hping : type = imsaMsgPingPcscfTrigger
  · simp only [if_neg hfilter, if_neg hderegister, if_neg hreset, if_pos hping]
    exact .inr ⟨24, rfl, by decide, by decide⟩
  by_cases hloss : type = imsaMsgPktLossRpt
  · simp only [if_neg hfilter, if_neg hderegister, if_neg hreset, if_neg hping, if_pos hloss]
    exact .inr ⟨20, rfl, by decide, by decide⟩
  by_cases hsend : type = imsaMsgSend
  · simp only [if_neg hfilter, if_neg hderegister, if_neg hreset, if_neg hping, if_neg hloss, if_pos hsend]
    exact .inr ⟨56, rfl, by decide, by decide⟩
  · simp only [if_neg hfilter, if_neg hderegister, if_neg hreset, if_neg hping, if_neg hloss, if_neg hsend]
    exact .inl ⟨trivial, trivial⟩

theorem bodySize_send : bodySize imsaMsgSend = some 56 := rfl

theorem bodySize_loss : bodySize imsaMsgPktLossRpt = some 20 := rfl

theorem leAt_append_left {n offset : Nat} (h : offset + n ≤ current.length) (more : Bytes) :
    leAt n (current ++ more) offset = leAt n current offset := by
  unfold leAt sliceAt
  rw [List.drop_append_of_le_length (by omega), List.take_append_of_le_length (by rw [List.length_drop]; omega)]

/-- What a body announces stands within it. -/
theorem announced_append {type : UInt8} (hsize : bodySize type = some size) (h : size ≤ current.length)
    (more : Bytes) : announced type (current ++ more) = announced type current := by
  unfold announced
  by_cases hsend : type = imsaMsgSend
  · rw [hsend, bodySize_send, Option.some.injEq] at hsize
    rw [if_pos hsend, if_pos hsend, leAt_append_left (by omega)]
  · by_cases hloss : type = imsaMsgPktLossRpt
    · rw [hloss, bodySize_loss, Option.some.injEq] at hsize
      rw [if_neg hsend, if_neg hsend, leAt_append_left (by omega)]
    · simp only [if_neg hsend, if_neg hloss]

/-- The unit at the front of a stream, by cases. -/
theorem unit_eq_some_iff {meaning : Option Message} {total : Nat} :
    unit stream = some (meaning, total) ↔ 4 ≤ stream.length ∧
      (bodySize (stream.getD 0 0) = none ∧ meaning = none ∧ total = 4 ∨
        ∃ size, bodySize (stream.getD 0 0) = some size ∧ 4 + size ≤ stream.length ∧
          total = 4 + size + announced (stream.getD 0 0) (stream.drop 4) ∧ total ≤ stream.length ∧
          meaning = if imsaMsgMax < total then none
            else some ⟨stream.getD 0 0, (stream.take total).drop 4⟩) := by
  unfold unit
  by_cases hheader : stream.length < 4
  · rw [if_pos hheader]
    exact ⟨nofun, fun h => absurd h.1 (by omega)⟩
  · rw [if_neg hheader]
    -- A header of an unknown kind is a unit by itself.
    cases hsize : bodySize (stream.getD 0 0) with
    | none =>
        simp only [Option.some.injEq, Prod.mk.injEq, reduceCtorEq, false_and, exists_false, or_false, true_and]
        constructor
        · rintro ⟨rfl, rfl⟩
          exact ⟨by omega, rfl, rfl⟩
        · rintro ⟨-, rfl, rfl⟩
          exact ⟨rfl, rfl⟩
    | some size =>
        simp only [Option.some.injEq, reduceCtorEq, false_and, false_or, exists_eq_left']
        split
        · simp only [reduceCtorEq, false_iff]
          omega
        · split
          · simp only [reduceCtorEq, false_iff]
            omega
          · constructor
            · intro h
              -- Otherwise the body says how much more is announced.
              have htotal : total = 4 + size + announced (stream.getD 0 0) (stream.drop 4) := by
                split at h <;> exact (Prod.mk.inj (Option.some.inj h)).2.symm
              refine ⟨by omega, by omega, htotal, by omega, ?_⟩
              rw [← htotal] at h
              split at h <;> rename_i hlarge
              · rw [if_pos hlarge, (Prod.mk.inj (Option.some.inj h)).1]
              · rw [if_neg hlarge, (Prod.mk.inj (Option.some.inj h)).1]
            · rintro ⟨-, -, htotal, -, rfl⟩
              rw [← htotal]
              split <;> rfl

theorem getD_append_left (h : 4 ≤ current.length) (more : Bytes) :
    (current ++ more).getD 0 0 = current.getD 0 0 := by
  simp only [List.getD_eq_getElem?_getD]
  rw [List.getElem?_append_left (by omega)]

theorem drop_append_left (h : 4 ≤ current.length) (more : Bytes) :
    (current ++ more).drop 4 = current.drop 4 ++ more :=
  List.drop_append_of_le_length h

/-- What comes behind a unit does not change it. -/
theorem unit_steady : Steady unit where
  pos := by
    intro stream meaning total h
    obtain ⟨-, ⟨-, -, rfl⟩ | ⟨size, -, -, rfl, -⟩⟩ := unit_eq_some_iff.1 h <;> omega
  le := by
    intro stream meaning total h
    obtain ⟨hlen, ⟨-, -, rfl⟩ | ⟨size, -, -, -, hle, -⟩⟩ := unit_eq_some_iff.1 h <;> omega
  append := by
    intro stream meaning total h more
    obtain ⟨hlen, hrest⟩ := unit_eq_some_iff.1 h
    refine unit_eq_some_iff.2 ⟨by rw [List.length_append]; omega, ?_⟩
    rw [getD_append_left hlen, drop_append_left hlen]
    obtain hnone | ⟨size, hsize, hle, htotal, hin, hmeaning⟩ := hrest
    · exact .inl hnone
    · refine .inr ⟨size, hsize, by rw [List.length_append]; omega, ?_, by rw [List.length_append]; omega, ?_⟩
      · rw [announced_append hsize (by rw [List.length_drop]; omega), htotal]
      · rw [hmeaning, List.take_append_of_le_length hin]

/-! ### The reader between two reads -/

/-- Where the reader is in a unit that it keeps: in the header, in the body or in what the body
announces. -/
def Stage (reader : Reader) (current : Bytes) : Prop :=
  (reader.stage = 0 ∧ reader.need = 4) ∨
    ∃ size, bodySize (current.getD 0 0) = some size ∧ 4 ≤ current.length ∧
      ((reader.stage = 1 ∧ reader.need = 4 + size) ∨
        (reader.stage = 2 ∧ 4 + size ≤ current.length ∧
          reader.need = 4 + size + announced (current.getD 0 0) (current.drop 4)))

/-- The bytes of the current unit are in the frame. -/
structure Holds (reader : Reader) (current : Bytes) : Prop where
  frame : ∃ rest, reader.frame = current ++ rest
  haveLen : reader.haveLen = current.length
  discard : reader.discard = 0
  fits : reader.need ≤ imsaMsgMax
  stage : Stage reader current

/-- The current unit is too large, and the rest of it is read for nothing. -/
structure Skips (reader : Reader) (current : Bytes) : Prop where
  discard : 0 < reader.discard
  unit : ∃ size, bodySize (current.getD 0 0) = some size ∧ 4 + size ≤ current.length ∧
    imsaMsgMax < 4 + size + announced (current.getD 0 0) (current.drop 4) ∧
    current.length + reader.discard = 4 + size + announced (current.getD 0 0) (current.drop 4)

/-- **The reader after some bytes of a unit that is not complete.** -/
structure Partial (reader : Reader) (current : Bytes) : Prop where
  size : reader.frame.length = imsaMsgMax
  state : Holds reader current ∧ current.length < reader.need ∨ Skips reader current

theorem imsaMsgMax_eq : imsaMsgMax = 1560 := rfl

/-- A reader that starts on a unit. -/
theorem partial_nil (hsize : reader.frame.length = imsaMsgMax) (hhave : reader.haveLen = 0)
    (hneed : reader.need = 4) (hstage : reader.stage = 0) (hdiscard : reader.discard = 0) :
    Partial reader [] :=
  ⟨hsize, .inl ⟨⟨⟨_, rfl⟩, hhave, hdiscard, by rw [hneed]; decide, .inl ⟨hstage, hneed⟩⟩,
    by rw [hneed]; decide⟩⟩

/-- The bytes of a partial unit are no unit. -/
theorem Partial.unit_eq_none (h : Partial reader current) : unit current = none := by
  rw [Option.eq_none_iff_forall_not_mem]
  rintro ⟨meaning, total⟩ hunit
  obtain ⟨hlen, hrest⟩ := unit_eq_some_iff.1 hunit
  obtain ⟨hholds, hneed⟩ | hskips := h.state
  · obtain ⟨-, hfour⟩ | ⟨size, hsize, -, hstage⟩ := hholds.stage
    · omega
    · obtain ⟨hnone, -⟩ | ⟨size', hsize', hle, htotal, hin, -⟩ := hrest
      · rw [hsize] at hnone
        cases hnone
      · obtain rfl : size = size' := Option.some.inj (hsize.symm.trans hsize')
        obtain ⟨-, hsame⟩ | ⟨-, -, hsame⟩ := hstage <;> omega
  · obtain ⟨size, hsize, hlong, -, hsum⟩ := hskips.unit
    have := hskips.discard
    obtain ⟨hnone, -⟩ | ⟨size', hsize', hle, htotal, hin, -⟩ := hrest
    · rw [hsize] at hnone
      cases hnone
    · obtain rfl : size = size' := Option.some.inj (hsize.symm.trans hsize')
      omega

/-- **Every read asks for a byte at least**, and what it may bring fits its buffer: the frame, or the
512 bytes of `scratch`. -/
theorem Partial.want (h : Partial reader current) : 0 < reader.want ∧
    (if reader.discard = 0 then reader.haveLen + reader.want ≤ reader.frame.length else reader.want ≤ 512) := by
  unfold Reader.want
  obtain ⟨hholds, hneed⟩ | hskips := h.state
  · have hhave := hholds.haveLen
    have hfits := hholds.fits
    rw [h.size, if_pos hholds.discard, if_neg (by simp [hholds.discard])]
    omega
  · have hne : reader.discard ≠ 0 := Nat.pos_iff_ne_zero.1 hskips.discard
    simp only [hne, ne_eq, not_false_eq_true, if_true, if_false]
    split <;> omega

/-! ### One read -/

/-- How a turn ends: still in the unit, or with its meaning. -/
def Follows (turn : Turn) (current : Bytes) : Prop :=
  (turn.handled = none ∧ Partial turn.reader current) ∨
    (Partial turn.reader [] ∧ unit current = some (turn.handled, current.length))

/-- A complete message is handled. -/
theorem deliver_follows (hlength : reader.frame.length = imsaMsgMax) (h : Holds reader current)
    (hsize : bodySize (current.getD 0 0) = some size) (hlong : 4 ≤ current.length)
    (hcomplete : current.length = 4 + size + announced (current.getD 0 0) (current.drop 4))
    (hneed : reader.need = current.length) : Follows (deliver reader) current := by
  obtain ⟨rest, hframe⟩ := h.frame
  refine .inr ⟨partial_nil hlength rfl rfl rfl h.discard, ?_⟩
  refine unit_eq_some_iff.2 ⟨hlong, .inr ⟨size, hsize, by omega, hcomplete, Nat.le_refl _, ?_⟩⟩
  have hfits := h.fits
  rw [if_neg (by omega)]
  simp only [deliver, Reader.type, Reader.body, hframe, getD_append_left hlong, imsaHdrLen,
    drop_append_left hlong, h.haveLen, List.take_length]
  rw [List.take_left' (by rw [List.length_drop])]

/-- **The body is there.** -/
theorem bodyTurn_follows (hlength : reader.frame.length = imsaMsgMax) (h : Holds reader current)
    (hneed : reader.need = current.length) (hsize : bodySize (current.getD 0 0) = some size)
    (hlong : 4 ≤ current.length)
    (hstage : (reader.stage = 1 ∧ reader.need = 4 + size) ∨ (reader.stage = 2 ∧
      reader.need = 4 + size + announced (current.getD 0 0) (current.drop 4))) :
    Follows (bodyTurn reader) current := by
  obtain ⟨rest, hframe⟩ := h.frame
  have htype : reader.type = current.getD 0 0 := by
    rw [Reader.type, hframe, getD_append_left hlong]
  have hbody : reader.body = current.drop 4 ++ rest := by
    rw [Reader.body, hframe, imsaHdrLen, drop_append_left hlong]
  have hdelivers : reader.need = 4 + size + announced (current.getD 0 0) (current.drop 4) →
      Follows (deliver reader) current := fun hcomplete =>
    deliver_follows hlength h hsize hlong (by omega) hneed
  unfold bodyTurn
  obtain ⟨hone, hbase⟩ | ⟨htwo, hcomplete⟩ := hstage
  · by_cases hannounces : reader.type = imsaMsgSend ∨ reader.type = imsaMsgPktLossRpt
    · have hextra : (if reader.type = imsaMsgPktLossRpt then
          if leAt 4 reader.body (if reader.type = imsaMsgSend then 52 else 0) = 1 then
            imsaBodyPktLossRptExt else 0
          else leAt 4 reader.body (if reader.type = imsaMsgSend then 52 else 0)) =
          announced (current.getD 0 0) (current.drop 4) := by
        rw [hbody, ← announced_append hsize (by rw [List.length_drop]; omega) rest, ← htype]
        obtain htypes | htypes := hannounces <;> rw [htypes] <;> rfl
      simp only [hone, hannounces, and_self, if_true, hextra]
      split
      · -- the unit is too large
        rename_i hlarge
        have := h.fits
        refine .inl ⟨rfl, hlength, .inr ⟨?_, size, hsize, by omega, ?_, ?_⟩⟩
        · show 0 < announced _ _
          omega
        · omega
        · show current.length + announced _ _ = _
          omega
      · rename_i hfits
        have := h.fits
        split
        · rename_i hmore
          have hmore : current.length ≠ reader.need + announced (current.getD 0 0) (current.drop 4) := by
            rw [← h.haveLen]
            exact hmore
          refine .inl ⟨rfl, hlength, .inl ⟨⟨⟨rest, hframe⟩, h.haveLen, h.discard, ?_,
            .inr ⟨size, hsize, hlong, .inr ⟨rfl, by omega, ?_⟩⟩⟩, ?_⟩⟩
          · show reader.need + announced _ _ ≤ _
            omega
          · show reader.need + announced _ _ = _
            omega
          · show current.length < reader.need + announced _ _
            omega
        · rename_i hnone
          have hnone : current.length = reader.need + announced (current.getD 0 0) (current.drop 4) := by
            rw [← h.haveLen]
            exact not_not.1 hnone
          refine @deliver_follows current _ size hlength ⟨⟨rest, hframe⟩, h.haveLen, h.discard, ?_, ?_⟩ hsize hlong
            (by omega) hnone.symm
          · show reader.need + announced _ _ ≤ _
            omega
          · exact .inr ⟨size, hsize, hlong, .inr ⟨rfl, by omega, by show reader.need + _ = _; omega⟩⟩
    · rw [if_neg (fun hno => hannounces hno.2)]
      have hnothing : announced (current.getD 0 0) (current.drop 4) = 0 := by
        rw [htype, not_or] at hannounces
        simp only [announced, if_neg hannounces.1, if_neg hannounces.2]
      exact hdelivers (by omega)
  · rw [if_neg (fun hno => by omega)]
    exact hdelivers hcomplete

/-- **The header is there.** -/
theorem headerTurn_follows (hlength : reader.frame.length = imsaMsgMax) (h : Holds reader current)
    (hneed : reader.need = 4) (hstage : reader.stage = 0) (hfour : current.length = 4) :
    Follows (headerTurn reader) current := by
  obtain ⟨rest, hframe⟩ := h.frame
  have htype : reader.type = current.getD 0 0 := by
    rw [Reader.type, hframe, getD_append_left (by omega)]
  unfold headerTurn
  obtain ⟨hnone, hunknown⟩ | ⟨size, hsize, hle, hsome⟩ := imsaBodySizeFor_cases reader.type
  · rw [hunknown]
    refine .inr ⟨partial_nil hlength rfl hneed hstage h.discard, unit_eq_some_iff.2 ⟨by omega, .inl ?_⟩⟩
    rw [← htype]
    exact ⟨hnone, rfl, hfour⟩
  · rw [htype] at hsize
    simp only [hsome, Int.toNat_natCast, hneed, h.haveLen, hfour]
    rw [if_neg (by omega)]
    have hfits : 4 + size ≤ imsaMsgMax := by
      rw [imsaMsgMax_eq]
      omega
    by_cases hempty : size = 0
    · -- there is no body to wait for
      rw [if_neg (by omega)]
      refine @bodyTurn_follows current _ size hlength ⟨⟨rest, hframe⟩, hfour.symm, h.discard, hfits, ?_⟩ ?_
        hsize (by omega) (.inl ⟨rfl, rfl⟩)
      · exact .inr ⟨size, hsize, by omega, .inl ⟨rfl, rfl⟩⟩
      · show 4 + size = _
        omega
    · rw [if_pos (by omega)]
      refine .inl ⟨rfl, hlength, .inl ⟨⟨⟨rest, hframe⟩, hfour.symm, h.discard, hfits,
        .inr ⟨size, hsize, by omega, .inl ⟨rfl, rfl⟩⟩⟩, ?_⟩⟩
      show current.length < 4 + size
      omega

/-- The reader with some more bytes in its frame. -/
def Reader.append (reader : Reader) (chunk : Bytes) : Reader :=
  { reader with frame := blit reader.frame reader.haveLen chunk, haveLen := reader.haveLen + chunk.length }

theorem received_of_keeps (h : reader.discard = 0) : received reader chunk =
    if reader.haveLen + chunk.length ≠ reader.need then ⟨reader.append chunk, none, true⟩
    else if reader.stage = 0 then headerTurn (reader.append chunk) else bodyTurn (reader.append chunk) :=
  if_neg (not_not.2 h)

theorem received_of_skips (h : reader.discard ≠ 0) : received reader chunk =
    if reader.discard - chunk.length = 0 then
      ⟨{ reader with haveLen := 0, need := imsaHdrLen, stage := 0, discard := 0 }, none, true⟩
    else ⟨{ reader with discard := reader.discard - chunk.length }, none, true⟩ :=
  if_pos h

/-- New bytes leave the reader where it was in the unit. -/
theorem Holds.append (h : Holds reader current)
    (hroom : reader.haveLen + chunk.length ≤ reader.frame.length) :
    Holds (reader.append chunk) (current ++ chunk) ∧
      (reader.append chunk).frame.length = reader.frame.length := by
  obtain ⟨rest, hframe⟩ := h.frame
  have hblit : blit reader.frame reader.haveLen chunk =
      current ++ chunk ++ reader.frame.drop (reader.haveLen + chunk.length) := by
    rw [blit, hframe, List.take_left' h.haveLen.symm]
  have hlength : (current ++ chunk).length = reader.haveLen + chunk.length := by
    rw [List.length_append, h.haveLen]
  refine ⟨⟨⟨_, hblit⟩, hlength.symm, h.discard, h.fits, ?_⟩, blit_length hroom⟩
  obtain hheader | ⟨size, hbody, hlong, hwhere⟩ := h.stage
  · exact .inl hheader
  · have hfront := getD_append_left hlong chunk
    refine .inr ⟨size, by rw [hfront]; exact hbody, by rw [List.length_append]; omega, ?_⟩
    obtain hone | ⟨htwo, hbase, htotal⟩ := hwhere
    · exact .inl hone
    · refine .inr ⟨htwo, by rw [List.length_append]; omega, ?_⟩
      rw [hfront, drop_append_left hlong, announced_append hbody (by rw [List.length_drop]; omega)]
      exact htotal

/-- **One read**: the unit goes on, or it ends and its meaning is handled. -/
theorem received_follows (h : Partial reader current) (hpos : 0 < chunk.length)
    (hwant : chunk.length ≤ reader.want) : Follows (received reader chunk) (current ++ chunk) := by
  have hsafe := h.want.2
  have hlength : (current ++ chunk).length = current.length + chunk.length := List.length_append
  obtain ⟨hholds, hneed⟩ | hskips := h.state
  · have hhave := hholds.haveLen
    rw [if_pos hholds.discard] at hsafe
    obtain ⟨hnext, hsize⟩ := @Holds.append current chunk reader hholds (by omega)
    rw [h.size] at hsize
    rw [received_of_keeps hholds.discard]
    by_cases hmore : reader.haveLen + chunk.length = reader.need
    · have hneed' : (reader.append chunk).need = (current ++ chunk).length := by
        show reader.need = _
        omega
      rw [if_neg (not_not.2 hmore)]
      obtain ⟨hzero, hfour⟩ | ⟨size, hbody, hlong, hwhere⟩ := hnext.stage
      · rw [if_pos (show reader.stage = 0 from hzero)]
        exact headerTurn_follows hsize hnext hfour hzero (by omega)
      · have hnot : reader.stage ≠ 0 := by
          have hsame : (reader.append chunk).stage = reader.stage := rfl
          obtain ⟨hone, -⟩ | ⟨htwo, -⟩ := hwhere <;> omega
        rw [if_neg hnot]
        refine bodyTurn_follows hsize hnext hneed' hbody hlong ?_
        obtain hone | ⟨htwo, -, htotal⟩ := hwhere
        · exact .inl hone
        · exact .inr ⟨htwo, htotal⟩
    · rw [if_pos hmore]
      refine .inl ⟨rfl, hsize, .inl ⟨hnext, ?_⟩⟩
      -- the read asked for no more than the unit needs
      rw [Reader.want, if_neg (not_not.2 hholds.discard)] at hwant
      show _ < reader.need
      omega
  · have hne : reader.discard ≠ 0 := Nat.pos_iff_ne_zero.1 hskips.discard
    obtain ⟨size, hbody, hlong, hlarge, hsum⟩ := hskips.unit
    have hannounced : announced ((current ++ chunk).getD 0 0) ((current ++ chunk).drop 4) =
        announced (current.getD 0 0) (current.drop 4) := by
      rw [getD_append_left (by omega), drop_append_left (by omega),
        announced_append hbody (by rw [List.length_drop]; omega)]
    have hbody' : bodySize ((current ++ chunk).getD 0 0) = some size := by
      rw [getD_append_left (by omega), hbody]
    have hchunk : chunk.length ≤ reader.discard := by
      rw [Reader.want, if_pos hne] at hwant
      split at hwant <;> omega
    rw [received_of_skips hne]
    by_cases hzero : reader.discard - chunk.length = 0
    · rw [if_pos hzero]
      refine .inr ⟨partial_nil h.size rfl rfl rfl rfl, unit_eq_some_iff.2 ⟨by omega, .inr
        ⟨size, hbody', by omega, by omega, Nat.le_refl _, ?_⟩⟩⟩
      rw [if_pos (by omega)]
    · rw [if_neg hzero]
      refine .inl ⟨rfl, h.size, .inr ⟨?_, size, hbody', by omega, by omega, ?_⟩⟩
      · show 0 < reader.discard - chunk.length
        omega
      · show _ + (reader.discard - chunk.length) = _
        omega

/-! ### Handlers -/

theorem addressFields_le {version : UInt8} {ip port len : Nat} (hip : ip + 16 ≤ len) (hport : port + 2 ≤ len) :
    ∀ field ∈ addressFields version ip port, field.1 + field.2 ≤ len := by
  unfold addressFields
  intro field hfield
  split at hfield
  · simp only [List.mem_cons, List.not_mem_nil, or_false] at hfield
    obtain rfl | rfl := hfield
    · exact hport
    · show ip + 4 ≤ len
      omega
  · split at hfield
    · simp only [List.mem_cons, List.not_mem_nil, or_false] at hfield
      obtain rfl | rfl := hfield
      · exact hport
      · exact hip
    · simp only [List.mem_cons, List.not_mem_nil, or_false] at hfield
      subst hfield
      exact hport

/-- A body is as long as its type says, and with a payload as long as it says. -/
structure Fits (message : Message) : Prop where
  body : ∃ size, bodySize message.type = some size ∧ size ≤ message.body.length
  payload : message.type = imsaMsgSend →
    message.body.length = imsaBodySendHdr + leAt 4 message.body 52 ∧ message.body.length ≤ 1556

/-- A message that the grammar gives. -/
theorem fits_of_unit {message : Message} {total : Nat} (h : unit stream = some (some message, total)) :
    Fits message := by
  obtain ⟨hlen, ⟨-, hno, -⟩ | ⟨size, hsize, hle, htotal, hin, hmeaning⟩⟩ := unit_eq_some_iff.1 h
  · cases hno
  · split at hmeaning
    · cases hmeaning
    · rename_i hsmall
      obtain rfl := Option.some.inj hmeaning
      have hlength : ((stream.take total).drop 4).length = total - 4 := by
        rw [List.length_drop, List.length_take_of_le hin]
      refine ⟨⟨size, hsize, by show size ≤ ((stream.take total).drop 4).length; omega⟩, fun hsend => ?_⟩
      have hsend : stream.getD 0 0 = imsaMsgSend := hsend
      rw [hsend] at hsize htotal
      obtain rfl := Option.some.inj (bodySize_send.symm.trans hsize)
      -- the length of the payload stands in the body
      have hword : announced imsaMsgSend (stream.drop 4) = leAt 4 ((stream.take total).drop 4) 52 := by
        have hsplit : stream.drop 4 = (stream.take total).drop 4 ++ stream.drop total := by
          rw [← List.drop_append_of_le_length (by rw [List.length_take_of_le hin]; omega), List.take_append_drop]
        rw [announced, if_pos rfl, hsplit, leAt_append_left (by omega)]
      have hbase : imsaBodySendHdr = 56 := rfl
      rw [imsaMsgMax_eq] at hsmall
      show ((stream.take total).drop 4).length = _ ∧ ((stream.take total).drop 4).length ≤ 1556
      rw [hlength, ← hword]
      omega

/-- **A handler reads within the body** that it is called with. -/
theorem fieldsRead_le {message : Message} (h : Fits message) :
    ∀ field ∈ fieldsRead message, field.1 + field.2 ≤ message.body.length := by
  obtain ⟨size, hsize, hle⟩ := h.body
  have hping : imsaBodyPingPcscf = 24 := rfl
  have hhdr : imsaBodySendHdr = 56 := rfl
  unfold fieldsRead
  intro field hfield
  simp only at hfield
  split at hfield
  · rename_i hfilter
    have h52 : 52 ≤ message.body.length := by
      simp only [bodySize, if_pos hfilter, Option.some.injEq] at hsize
      omega
    rw [List.mem_append, List.mem_append] at hfield
    obtain (hfield | hfield) | hfield := hfield
    · simp only [List.mem_cons, List.not_mem_nil, or_false] at hfield
      obtain rfl | rfl := hfield <;> simp only <;> omega
    · exact addressFields_le (by omega) (by omega) field hfield
    · simp only [List.mem_cons, List.not_mem_nil, or_false] at hfield
      obtain rfl | rfl | rfl | rfl := hfield <;> simp only <;> omega
  · split at hfield
    · rename_i hfilter hderegister
      simp only [bodySize, if_neg hfilter, if_pos hderegister, Option.some.injEq] at hsize
      simp only [List.mem_cons, List.not_mem_nil, or_false] at hfield
      subst hfield
      simp only
      omega
    · split at hfield
      · split at hfield
        · cases hfield
        · simp only [List.mem_cons, List.not_mem_nil, or_false] at hfield
          obtain rfl | rfl := hfield <;> simp only <;> omega
      · split at hfield
        · rename_i hloss
          rw [hloss, bodySize_loss, Option.some.injEq] at hsize
          simp only [List.mem_cons, List.not_mem_nil, or_false] at hfield
          obtain rfl | rfl | rfl := hfield <;> simp only <;> omega
        · split at hfield
          · rename_i hsend
            obtain ⟨hlength, hmax⟩ := h.payload hsend
            split at hfield
            · cases hfield
            · -- the sum does not wrap, and the payload is what follows
              have hwhole : ¬ (imsaBodySendHdr + leAt 4 message.body 52) % 2 ^ 32 > message.body.length := by
                rw [Nat.mod_eq_of_lt (by omega)]
                omega
              rw [if_neg hwhole, List.mem_append] at hfield
              obtain hfield | hfield := hfield
              · simp only [List.mem_cons, List.not_mem_nil, or_false] at hfield
                obtain rfl | rfl | rfl | rfl := hfield <;> simp only <;> omega
              · exact addressFields_le (by omega) (by omega) field hfield
          · cases hfield

/-! ### Runs -/

/-- The reader stands within a unit, and what it has handled fits. -/
structure Safe (link : Link) : Prop where
  reader : ∃ current, Partial link.reader current
  handled : ∀ message ∈ link.handled, Fits message

/-- What has been handled are the messages of what has been read. -/
def Sound (stream : Bytes) (link : Link) : Prop :=
  ∃ done current, stream = done ++ current ++ link.stream ∧ Settled unit done link.handled ∧
    Partial link.reader current

variable {link link' : Link} {outcome : Outcome} {continues : Bool}

theorem Follows.handled {turn : Turn} (h : Follows turn current) :
    (∃ next, Partial turn.reader next) ∧ ∀ message ∈ turn.handled.toList, Fits message := by
  obtain ⟨hnone, hpieces⟩ | ⟨hpieces, hunit⟩ := h
  · exact ⟨⟨_, hpieces⟩, by simp [hnone]⟩
  · refine ⟨⟨_, hpieces⟩, fun message hmessage => ?_⟩
    rw [Option.mem_toList] at hmessage
    rw [hmessage] at hunit
    exact fits_of_unit hunit

/-- **A read keeps the reader safe**, and sound unless it fails. -/
theorem read_keeps (hread : link.read outcome = some (link', continues)) :
    (Safe link → Safe link') ∧ (outcome ≠ .failed → Sound stream link → Sound stream link') := by
  cases outcome with
  | interrupted =>
      obtain ⟨rfl, -⟩ := Prod.mk.inj (Option.some.inj hread)
      exact ⟨id, fun _ => id⟩
  | wouldBlock =>
      obtain ⟨rfl, -⟩ := Prod.mk.inj (Option.some.inj hread)
      exact ⟨id, fun _ => id⟩
  -- An error drops what has been read of a message.
  | failed =>
      obtain ⟨rfl, -⟩ := Prod.mk.inj (Option.some.inj hread)
      refine ⟨fun ⟨⟨current, hpieces⟩, hhandled⟩ => ⟨⟨[], ?_⟩, hhandled⟩, fun hne => absurd rfl hne⟩
      exact partial_nil hpieces.size rfl rfl rfl rfl
  -- The bytes complete a unit or go on with one.
  | bytes n =>
      simp only [Link.read] at hread
      split at hread
      · rename_i hn
        obtain ⟨rfl, -⟩ := Prod.mk.inj (Option.some.inj hread)
        have hlength : (link.stream.take n).length = n := List.length_take_of_le hn.2.2
        constructor
        · rintro ⟨⟨current, hpieces⟩, hhandled⟩
          obtain ⟨hnext, hnew⟩ :=
            (@received_follows current (link.stream.take n) link.reader hpieces (by omega) (by omega)).handled
          refine ⟨hnext, fun message hmessage => ?_⟩
          obtain hold | hmessage := List.mem_append.1 hmessage
          · exact hhandled message hold
          · exact hnew message hmessage
        · rintro - ⟨done, current, hstream, hsettled, hpieces⟩
          have hcut : stream = done ++ (current ++ link.stream.take n) ++ link.stream.drop n := by
            rw [hstream]
            simp only [List.append_assoc, List.take_append_drop]
          obtain ⟨hnone, hnext⟩ | ⟨hnext, hunit⟩ :=
            @received_follows current (link.stream.take n) link.reader hpieces (by omega) (by omega)
          · refine ⟨done, current ++ link.stream.take n, hcut, ?_, hnext⟩
            rw [hnone, Option.toList_none, List.append_nil]
            -- No unit is complete: what has been read is longer,
            exact hsettled
          -- or one is, and the next begins behind it.
          · refine ⟨done ++ (current ++ link.stream.take n), [], ?_, hsettled.snoc unit_steady hunit, hnext⟩
            rw [List.append_nil]
            exact hcut
      · cases hread

/-- **A drain keeps the reader safe**, and sound unless a read fails. -/
theorem drain_keeps {outcomes : List Outcome} (hcall : imsaReaderDrain link outcomes = some link') :
    (Safe link → Safe link') ∧ (.failed ∉ outcomes → Sound stream link → Sound stream link') := by
  induction outcomes generalizing link with
  | nil =>
      cases hcall
      exact ⟨id, fun _ => id⟩
  | cons outcome outcomes ih =>
      simp only [imsaReaderDrain] at hcall
      cases hread : link.read outcome with
      | none => simp [hread] at hcall
      | some turn =>
          obtain ⟨next, continues⟩ := turn
          obtain ⟨hsafe, hsound⟩ := @read_keeps stream link next outcome continues hread
          rw [hread] at hcall
          cases continues with
          | true =>
              obtain ⟨hsafe', hsound'⟩ := ih hcall
              refine ⟨fun h => hsafe' (hsafe h), fun hnot h => hsound' (fun hin => hnot ?_) (hsound ?_ h)⟩
              · exact List.mem_cons_of_mem _ hin
              · rintro rfl
                exact hnot List.mem_cons_self
          | false =>
              simp only at hcall
              split at hcall
              · cases hcall
                refine ⟨hsafe, fun hnot h => hsound ?_ h⟩
                rintro rfl
                exact hnot List.mem_cons_self
              · cases hcall

theorem calls_keep {calls : List (List Outcome)} (h : link.calls calls = some link') :
    (Safe link → Safe link') ∧ ((∀ call ∈ calls, .failed ∉ call) → Sound stream link → Sound stream link') := by
  induction calls generalizing link with
  | nil =>
      cases h
      exact ⟨id, fun _ => id⟩
  | cons call calls ih =>
      simp only [Link.calls, List.foldlM_cons, Option.bind_eq_bind, Option.bind_eq_some_iff] at h
      obtain ⟨next, hcall, hrest⟩ := h
      obtain ⟨hsafe, hsound⟩ := @drain_keeps stream link next call hcall
      obtain ⟨hsafe', hsound'⟩ := ih hrest
      refine ⟨fun h => hsafe' (hsafe h), fun hnot h => hsound' (fun c hc => hnot c ?_) (hsound (hnot call ?_) h)⟩
      · exact List.mem_cons_of_mem _ hc
      · exact List.mem_cons_self

theorem init_partial : Partial Reader.init [] :=
  partial_nil List.length_replicate rfl rfl rfl rfl

/-- **The reader handles the messages of the stream**: however the device cuts it into reads and the
reads into calls, what has been handled are the messages of what has been read. Each read asks for a
byte and fits its buffer, and each handler reads within its body, also when reads fail. -/
theorem imsaReaderDrain_follows (stream : Bytes) (calls : List (List Outcome)) (link : Link)
    (h : (Link.init stream).calls calls = some link) :
    (0 < link.reader.want ∧ if link.reader.discard = 0 then
        link.reader.haveLen + link.reader.want ≤ imsaMsgMax else link.reader.want ≤ 512) ∧
      (∀ message ∈ link.handled, ∀ field ∈ fieldsRead message, field.1 + field.2 ≤ message.body.length) ∧
      ((∀ call ∈ calls, .failed ∉ call) →
        (∃ front, stream = front ++ link.stream ∧ link.handled = messages front) ∧
          (link.stream = [] → link.handled = messages stream)) := by
  obtain ⟨hsafe, hsound⟩ := @calls_keep stream _ _ calls h
  obtain ⟨⟨current, hpieces⟩, hhandled⟩ := hsafe ⟨⟨[], init_partial⟩, by simp [Link.init]⟩
  refine ⟨?_, fun message hmessage => fieldsRead_le (hhandled message hmessage), fun hnot => ?_⟩
  · rw [← hpieces.size]
    exact hpieces.want
  · obtain ⟨done, current, hstream, hsettled, hpieces⟩ :=
      hsound hnot ⟨[], [], rfl, settled_nil, init_partial⟩
    have hmessages : link.handled = messages (done ++ current) :=
      (hsettled.units_append hpieces.unit_eq_none).symm
    refine ⟨⟨done ++ current, hstream, hmessages⟩, fun hempty => ?_⟩
    rw [hempty, List.append_nil] at hstream
    rw [hstream]
    exact hmessages

/-- A reset, a header of unknown type and a payload of two bytes. -/
def threeUnits : Bytes :=
  [7, 0, 0, 0] ++ [99, 0, 0, 0] ++ [128, 0, 0, 0] ++ List.replicate 52 1 ++ [2, 0, 0, 0, 8, 9]

/-- Short reads of them, over four calls. -/
def shortReads : List (List Outcome) :=
  [[.bytes 3, .interrupted, .wouldBlock], [.bytes 1, .bytes 4], [.bytes 4, .bytes 50, .wouldBlock],
    [.bytes 6, .bytes 1, .bytes 1, .wouldBlock]]

theorem imsaReaderDrain_follows_shortReads : ∃ link,
    (Link.init threeUnits).calls shortReads = some link ∧
      link.handled = [⟨7, []⟩, ⟨128, List.replicate 52 1 ++ [2, 0, 0, 0, 8, 9]⟩] := by
  obtain ⟨link, hlink⟩ := Option.isSome_iff_exists.1
    (show ((Link.init threeUnits).calls shortReads).isSome = true by decide +kernel)
  have hread : link.stream = [] := by
    have hall : ((Link.init threeUnits).calls shortReads).map (·.stream) = some [] := by decide +kernel
    simpa [hlink] using hall
  obtain ⟨-, -, hsame⟩ := imsaReaderDrain_follows threeUnits shortReads link hlink
  refine ⟨link, hlink, ?_⟩
  rw [(hsame (by decide)).2 hread]
  decide +kernel

end Mindone.Wfca.Imsa
