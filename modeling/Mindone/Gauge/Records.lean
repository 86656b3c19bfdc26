import Mindone.Gauge.Store

/-!
# Mindone.Gauge.Records

The records of the gauge are **canonical and protected**. The codec of each is one equivalence
(`decode_eq_ok_iff`): a text is accepted when it is *the* encoding of the state that comes out. The
stored ones are sealed texts of words (`LearnedState.encode_eq`, `ShadowState.encode_eq`), so no two
of them differ within 32 consecutive bits.
-/

namespace Mindone.Gauge

open Mindone.Lib Store

/-! ### The checksum -/

/-- The polynomial of `crc32`. -/
def poly : BitVec 32 := 0xedb88320#32

theorem toBitVec_crcBit (crc : UInt32) : (crcBit crc).toBitVec = Crc.shift poly crc.toBitVec := by
  have hlow := BitVec.and_one_eq_setWidth_ofBool_getLsbD (x := crc.toBitVec)
  have hbit : (crcBit crc).toBitVec =
      (crc.toBitVec >>> 1) ^^^ (0xedb88320#32 &&& (0#32 - (crc.toBitVec &&& 1#32))) := rfl
  rw [hbit, hlow, Crc.shift]
  congr 1
  cases crc.toBitVec.getLsbD 0 with
  | true => decide
  | false => decide

theorem toBitVec_iterate_crcBit (n : Nat) (crc : UInt32) :
    (crcBit^[n] crc).toBitVec = (Crc.shift poly)^[n] crc.toBitVec := by
  induction n generalizing crc with
  | zero => rfl
  | succ n ih => rw [Function.iterate_succ_apply, ih, toBitVec_crcBit, ← Function.iterate_succ_apply]

theorem pack_byteBits (b : UInt8) : Crc.pack 32 (byteBits b) = b.toUInt32.toBitVec := by
  apply BitVec.eq_of_getLsbD_eq
  intro i hi
  rw [Crc.getLsbD_pack _ hi, getD_byteBits]
  simp [BitVec.getLsbD]

/-- **The source's loops compute the checksum.** -/
theorem toBitVec_crc32 (bytes : Bytes) : (crc32 bytes).toBitVec = checksum poly bytes := by
  have hloop : ∀ crc : UInt32,
      (bytes.foldl (fun crc byte => crcBit^[8] (crc ^^^ byte.toUInt32)) crc).toBitVec =
        Crc.feedAll poly crc.toBitVec (textBits bytes) := by
    induction bytes with
    | nil => exact fun crc => rfl
    | cons b bytes ih =>
        intro crc
        have hcons : textBits (b :: bytes) = byteBits b ++ textBits bytes := rfl
        have hbyte : Crc.feedAll poly crc.toBitVec (byteBits b) =
            (Crc.shift poly)^[8] (crc.toBitVec ^^^ b.toUInt32.toBitVec) := by
          rw [Crc.feedAll_eq (by simp), pack_byteBits, length_byteBits]
        rw [List.foldl_cons, ih, hcons, Crc.feedAll_append, hbyte, toBitVec_iterate_crcBit,
          UInt32.toBitVec_xor]
  exact congrArg (~~~ ·) (hloop (~~~ 0))

theorem toNat_crc32 (bytes : Bytes) : (crc32 bytes).toNat = (checksum poly bytes).toNat :=
  congrArg BitVec.toNat (toBitVec_crc32 bytes)

/-- The checksum of a record that was written. -/
theorem put_crc {body : Bytes} {size : Nat} (hsize : size = body.length) :
    put (body ++ List.replicate 4 0) size (u32Bytes (crc32 ((body ++ List.replicate 4 0).take size))) =
      sealed poly 4 body := by
  rw [List.take_left' hsize.symm, put_zeros 0 0 hsize (by simp)]
  simp [sealed, u32Bytes, toNat_crc32]

/-! ### The learned state -/

namespace LearnedState

def sizes : List Nat := [8, 4, 4, 4, 4, 4, 4, 8]

def words (state : LearnedState) : List Nat :=
  [ofLe magic, 1, 24, state.qmaxUah.get.toNat, state.agingFactorPermille.get.toNat,
    state.cycleCount.get.toNat, state.lastSocPermille.get.toNat,
    state.lastSocSampleSequence.get.toNat]

theorem fit_words (state : LearnedState) : Fit sizes state.words := by
  simp only [Fit, sizes, words, List.forall₂_cons]
  refine ⟨by decide, by decide, by decide, ?_, ?_, ?_, ?_, ?_, .nil⟩
  · exact state.qmaxUah.get.toNat_lt
  · exact state.agingFactorPermille.get.toNat_lt
  · exact state.cycleCount.get.toNat_lt
  · exact state.lastSocPermille.get.toNat_lt
  · exact state.lastSocSampleSequence.get.toNat_lt

/-- **The record is a sealed text of words.** -/
theorem encode_eq (state : LearnedState) :
    state.encode = sealed poly 4 (joinWords sizes state.words) := by
  simp only [encode, putAll, List.foldl_cons, List.foldl_nil, recordLen]
  rw [← List.nil_append (List.replicate 44 0), put_zeros 0 36 (by simp) (by simp [magic]),
    put_zeros 0 32 (by simp [magic]) (by simp), put_zeros 0 28 (by simp [magic]) (by simp),
    put_zeros 0 24 (by simp [magic]) (by simp), put_zeros 0 20 (by simp [magic]) (by simp),
    put_zeros 0 16 (by simp [magic]) (by simp), put_zeros 0 12 (by simp [magic]) (by simp),
    put_zeros 0 4 (by simp [magic]) (by simp), put_crc (by simp [magic])]
  have hmagic : toLe 8 (ofLe magic) = magic := toLe_ofLe magic
  simp [sizes, words, joinWords, u32Bytes, u64Bytes, hmagic, version, payloadLen]

end LearnedState

/-! ### Values -/

theorem value_eq_ok {α : Type} {p : Except ValueError α} {a : α} : value p = .ok a ↔ p = .ok a := by
  cases p <;> simp [value]

theorem MicroampHours.new_eq_ok {word : UInt32} {a : MicroampHours} :
    MicroampHours.new word = .ok a ↔ word = a.get := by
  obtain ⟨get, hne⟩ := a
  by_cases h : word = 0
  · subst h
    simp [MicroampHours.new, throw_eq_ok, Ne.symm hne]
  · simp [MicroampHours.new, h, pure_eq_ok]

theorem Permille.new_eq_ok {word : UInt32} {a : Permille} : Permille.new word = .ok a ↔ word = a.get := by
  obtain ⟨get, hle⟩ := a
  by_cases h : word > 1000
  · have hne : word ≠ get := by
      rintro rfl
      exact UInt32.not_lt.mpr hle h
    simp [Permille.new, h, throw_eq_ok, hne]
  · simp [Permille.new, h, pure_eq_ok]

theorem SampleSequence.new_eq_ok {word : UInt64} {a : SampleSequence} :
    SampleSequence.new word = .ok a ↔ word = a.get := by
  obtain ⟨get, hne⟩ := a
  by_cases h : word = 0
  · subst h
    simp [SampleSequence.new, throw_eq_ok, Ne.symm hne]
  · simp [SampleSequence.new, h, pure_eq_ok]

namespace LearnedState

/-- What a text that is accepted holds. -/
theorem decode_eq_ok {bytes : Bytes} {state : LearnedState} :
    decode bytes = .ok state ↔ bytes.length = 44 ∧ sliceAt bytes 0 8 = magic ∧ u32At bytes 8 = 1 ∧
      u32At bytes 12 = 24 ∧ u32At bytes 40 = crc32 (bytes.take 40) ∧
      u32At bytes 16 = state.qmaxUah.get ∧ u32At bytes 20 = state.agingFactorPermille.get ∧
      u32At bytes 24 = state.cycleCount.get ∧ u32At bytes 28 = state.lastSocPermille.get ∧
      u64At bytes 32 = state.lastSocSampleSequence.get := by
  simp only [decode, unless_eq_ok, bind_eq_ok, value_eq_ok, pure_eq_ok, MicroampHours.new_eq_ok,
    Permille.new_eq_ok, SampleSequence.new_eq_ok, not_not, ne_eq, recordLen, version, payloadLen]
  constructor
  · rintro ⟨hlen, hmagic, hversion, hpayload, hcrc, qmax, hqmax, aging, haging, soc, hsoc, seq, hseq, rfl⟩
    exact ⟨hlen, hmagic, hversion, hpayload, hcrc.symm, hqmax, haging, rfl, hsoc, hseq⟩
  · rintro ⟨hlen, hmagic, hversion, hpayload, hcrc, hqmax, haging, hcycle, hsoc, hseq⟩
    exact ⟨hlen, hmagic, hversion, hpayload, hcrc.symm, _, hqmax, _, haging, _, hsoc, _, hseq,
      LearnedState.ext rfl rfl (congrArg CycleCount.mk hcycle) rfl rfl⟩

/-- **A text is accepted when it is the encoding of its state.** -/
theorem decode_eq_ok_iff {bytes : Bytes} {state : LearnedState} :
    decode bytes = .ok state ↔ bytes = state.encode := by
  rw [decode_eq_ok, encode_eq, eq_sealed_joinWords_iff (show 32 = 8 * 4 from rfl) (fit_words state)]
  simp only [sizes, words, wordsAt, List.drop_drop, leAt_drop, List.cons.injEq, and_true,
    u32At_eq_iff, u64At_eq_iff, toNat_crc32]
  refine and_congr_right fun hlen => ?_
  rw [@sliceAt_eq_iff bytes 0 8 magic (by omega) rfl]
  constructor
  · rintro ⟨hmagic, hversion, hpayload, hcrc, hfields⟩
    exact ⟨⟨hmagic, hversion, hpayload, hfields⟩, hcrc⟩
  · rintro ⟨⟨hmagic, hversion, hpayload, hfields⟩, hcrc⟩
    exact ⟨hmagic, hversion, hpayload, hcrc, hfields⟩

end LearnedState

/-! ### The shadow state -/

namespace ShadowState

theorem toNat_lt_of_and {flags : UInt32} (h : flags &&& ~~~ 7 = 0) : flags.toNat < 8 := by
  have hsplit : flags.toBitVec = (flags.toBitVec &&& 7#32) ||| (flags &&& ~~~ 7).toBitVec := by
    apply BitVec.eq_of_getLsbD_eq
    intro i hi
    have hrest : (flags &&& ~~~ 7).toBitVec = flags.toBitVec &&& ~~~ 7#32 := rfl
    rw [hrest, BitVec.getLsbD_or, BitVec.getLsbD_and, BitVec.getLsbD_and, BitVec.getLsbD_not]
    cases flags.toBitVec.getLsbD i <;> simp [hi]
  rw [h, UInt32.toBitVec_zero, BitVec.or_zero] at hsplit
  have hnumber := congrArg BitVec.toNat hsplit
  rw [BitVec.toNat_and] at hnumber
  have hmod : flags.toNat = flags.toNat % 2 ^ 3 :=
    hnumber.trans (Nat.and_two_pow_sub_one_eq_mod flags.toNat 3)
  omega

/-- Three flags and no other bit. -/
theorem eq_flagWord_iff {flags : UInt32} {qmax aging cycle : Bool} :
    flags = flagWord qmax aging cycle ↔ flags &&& ~~~ 7 = 0 ∧ (flags &&& 1 != 0) = qmax ∧
      (flags &&& 2 != 0) = aging ∧ (flags &&& 4 != 0) = cycle := by
  constructor
  · rintro rfl
    cases qmax <;> cases aging <;> cases cycle <;> decide
  · rintro ⟨hrest, rfl, rfl, rfl⟩
    have hsmall : ∀ n < 8, UInt32.ofNat n = flagWord (UInt32.ofNat n &&& 1 != 0)
        (UInt32.ofNat n &&& 2 != 0) (UInt32.ofNat n &&& 4 != 0) := by decide
    have hflags := hsmall flags.toNat (toNat_lt_of_and hrest)
    rwa [UInt32.ofNat_toNat] at hflags

/-- A field that is there when its flag is set, and zero when it is not. -/
theorem optional_eq_ok {α : Type} {new : UInt32 → Except ValueError α} {get : α → UInt32}
    (hnew : ∀ word a, new word = .ok a ↔ word = get a) {present : Bool} {word : UInt32}
    {field : Option α} :
    (present = false → word = 0) ∧ optional present new word = .ok field ↔
      present = field.isSome ∧ word = (field.map get).getD 0 := by
  cases present with
  | false => cases field <;> simp [optional, pure_eq_ok]
  | true =>
      simp only [optional, if_true, bind_eq_ok, value_eq_ok, hnew, pure_eq_ok]
      cases field <;> simp

/-- The loop over the fields: one whose flag is clear is zero. -/
theorem not_any_fields {bytes : Bytes} {flags : UInt32} :
    (¬ ([(1, 20), (2, 24), (4, 28)].any fun (bit, offset) =>
      flags &&& bit == 0 && u32At bytes offset != 0) = true) ↔
        ((flags &&& 1 != 0) = false → u32At bytes 20 = 0) ∧
          ((flags &&& 2 != 0) = false → u32At bytes 24 = 0) ∧
            ((flags &&& 4 != 0) = false → u32At bytes 28 = 0) := by
  simp

def flags (state : ShadowState) : UInt32 :=
  flagWord state.qmaxUah.isSome state.agingFactorPermille.isSome state.cycleCount.isSome

/-- What a text that is accepted holds. -/
theorem decode_eq_ok {bytes : Bytes} {state : ShadowState} :
    decode bytes = .ok state ↔ isFinite state.chargeInUah = true ∧ bytes.length = 68 ∧
      sliceAt bytes 0 8 = magic ∧ u32At bytes 8 = 3 ∧ u32At bytes 12 = 48 ∧
      sliceAt bytes 56 8 = List.replicate 8 0 ∧ crc32 (bytes.take 64) = u32At bytes 64 ∧
      u32At bytes 16 = state.flags ∧
      u32At bytes 20 = (state.qmaxUah.map MicroampHours.get).getD 0 ∧
      u32At bytes 24 = (state.agingFactorPermille.map Permille.get).getD 0 ∧
      u32At bytes 28 = (state.cycleCount.map CycleCount.get).getD 0 ∧
      u64At bytes 32 = state.chargeInUah ∧ u64At bytes 40 = state.acquiredNs ∧
      u64At bytes 48 = state.sequence := by
  have hqmax := fun word present => @optional_eq_ok _ _ _ (fun _ _ => MicroampHours.new_eq_ok) present word
  have haging := fun word present => @optional_eq_ok _ _ _ (fun _ _ => Permille.new_eq_ok) present word
  have hcycle := fun word present => @optional_eq_ok _ (fun word => pure ⟨word⟩) CycleCount.get
    (fun word cycle => pure_eq_ok.trans ⟨congrArg CycleCount.get, congrArg CycleCount.mk⟩) present word
  simp only [decode, unless_eq_ok, not_any_fields, bind_eq_ok, pure_eq_ok, not_or, not_not, ne_eq]
  constructor
  · rintro ⟨hlen, hmagic, hversion, ⟨hpayload, hrest, hreserved⟩, hcrc, ⟨hzero₁, hzero₂, hzero₃⟩,
      hfinite, qmax, hq, aging, ha, cycle, hc, rfl⟩
    obtain ⟨hflag₁, hword₁⟩ := (hqmax _ _).mp ⟨hzero₁, hq⟩
    obtain ⟨hflag₂, hword₂⟩ := (haging _ _).mp ⟨hzero₂, ha⟩
    obtain ⟨hflag₃, hword₃⟩ := (hcycle _ _).mp ⟨hzero₃, hc⟩
    exact ⟨by simpa using hfinite, hlen, hmagic, hversion, hpayload, hreserved, hcrc,
      eq_flagWord_iff.mpr ⟨hrest, hflag₁, hflag₂, hflag₃⟩, hword₁, hword₂, hword₃, rfl, rfl, rfl⟩
  · rintro ⟨hfinite, hlen, hmagic, hversion, hpayload, hreserved, hcrc, hflags, hword₁, hword₂, hword₃,
      hcharge, hacquired, hsequence⟩
    obtain ⟨hrest, hflag₁, hflag₂, hflag₃⟩ := eq_flagWord_iff.mp hflags
    obtain ⟨hzero₁, hq⟩ := (hqmax _ _).mpr ⟨hflag₁, hword₁⟩
    obtain ⟨hzero₂, ha⟩ := (haging _ _).mpr ⟨hflag₂, hword₂⟩
    obtain ⟨hzero₃, hc⟩ := (hcycle _ _).mpr ⟨hflag₃, hword₃⟩
    exact ⟨hlen, hmagic, hversion, ⟨hpayload, hrest, hreserved⟩, hcrc, ⟨hzero₁, hzero₂, hzero₃⟩,
      by simp [hcharge, hfinite], _, hq, _, ha, _, hc,
      ShadowState.ext rfl rfl rfl hcharge hacquired hsequence⟩

def sizes : List Nat := [8, 4, 4, 4, 4, 4, 4, 8, 8, 8, 8]

def words (state : ShadowState) : List Nat :=
  [ofLe magic, 3, 48, state.flags.toNat, ((state.qmaxUah.map MicroampHours.get).getD 0).toNat,
    ((state.agingFactorPermille.map Permille.get).getD 0).toNat,
    ((state.cycleCount.map CycleCount.get).getD 0).toNat, state.chargeInUah.toNat,
    state.acquiredNs.toNat, state.sequence.toNat, 0]

theorem fit_words (state : ShadowState) : Fit sizes state.words := by
  simp only [Fit, sizes, words, List.forall₂_cons]
  refine ⟨by decide, by decide, by decide, UInt32.toNat_lt _, UInt32.toNat_lt _, UInt32.toNat_lt _,
    UInt32.toNat_lt _, UInt64.toNat_lt _, UInt64.toNat_lt _, UInt64.toNat_lt _, by decide, .nil⟩

/-- **The record is a sealed text of words.** -/
theorem encode_eq (state : ShadowState) : state.encode =
    if isFinite state.chargeInUah then .ok (sealed poly 4 (joinWords sizes state.words))
    else .error .length := by
  cases hfinite : isFinite state.chargeInUah with
  | false =>
      simp only [encode, hfinite]
      rfl
  | true =>
      simp only [encode, hfinite, putAll, List.foldl_cons, List.foldl_nil, Bool.not_true,
        Bool.false_eq_true, if_false, if_true]
      rw [← List.nil_append (List.replicate 68 0), put_zeros 0 60 (by simp) (by simp [magic]),
        put_zeros 0 56 (by simp [magic]) (by simp), put_zeros 0 52 (by simp [magic]) (by simp),
        put_zeros 0 48 (by simp [magic]) (by simp), put_zeros 0 44 (by simp [magic]) (by simp),
        put_zeros 0 40 (by simp [magic]) (by simp), put_zeros 0 36 (by simp [magic]) (by simp),
        put_zeros 0 28 (by simp [magic]) (by simp), put_zeros 0 20 (by simp [magic]) (by simp),
        put_zeros 0 12 (by simp [magic]) (by simp)]
      -- the reserved bytes stay zero
      have hzeros : List.replicate 12 (0 : UInt8) = List.replicate 8 0 ++ List.replicate 4 0 := rfl
      rw [hzeros, ← List.append_assoc, put_crc (by simp [magic])]
      have hmagic : toLe 8 (ofLe magic) = magic := toLe_ofLe magic
      have hreserved : toLe 8 0 = List.replicate 8 0 := rfl
      simp [sizes, words, joinWords, u32Bytes, u64Bytes, hmagic, hreserved, flags, pure, Except.pure]

theorem encode_eq_ok {bytes : Bytes} {state : ShadowState} : state.encode = .ok bytes ↔
    isFinite state.chargeInUah = true ∧ bytes = sealed poly 4 (joinWords sizes state.words) := by
  rw [encode_eq]
  cases isFinite state.chargeInUah <;> simp [eq_comm]

/-- **A text is accepted when it is the encoding of its state.** -/
theorem decode_eq_ok_iff {bytes : Bytes} {state : ShadowState} :
    decode bytes = .ok state ↔ state.encode = .ok bytes := by
  rw [decode_eq_ok, encode_eq_ok, eq_sealed_joinWords_iff (show 32 = 8 * 4 from rfl) (fit_words state)]
  refine and_congr_right fun _ => and_congr_right fun hlen => ?_
  rw [@sliceAt_eq_iff bytes 0 8 magic (by omega) rfl,
    @sliceAt_eq_iff bytes 56 8 (List.replicate 8 0) (by omega) rfl, eq_comm (a := crc32 _)]
  simp only [sizes, words, wordsAt, List.drop_drop, leAt_drop, List.cons.injEq, and_true,
    u32At_eq_iff, u64At_eq_iff, toNat_crc32]
  constructor
  · rintro ⟨hmagic, hversion, hpayload, hreserved, hcrc, hflags, hqmax, haging, hcycle, hcharge, hacquired,
      hsequence⟩
    exact ⟨⟨hmagic, hversion, hpayload, hflags, hqmax, haging, hcycle, hcharge, hacquired, hsequence,
      hreserved⟩, hcrc⟩
  · rintro ⟨⟨hmagic, hversion, hpayload, hflags, hqmax, haging, hcycle, hcharge, hacquired, hsequence,
      hreserved⟩, hcrc⟩
    exact ⟨hmagic, hversion, hpayload, hreserved, hcrc, hflags, hqmax, haging, hcycle, hcharge, hacquired,
      hsequence⟩

end ShadowState

/-! ### Changed records -/

/-- Two texts agree outside of 32 consecutive bits. -/
def AgreeOutside (i : Nat) (bytes bytes' : Bytes) : Prop :=
  bytes.length = bytes'.length ∧ ∀ k, k < i ∨ i + 32 ≤ k →
    (textBits bytes).getD k false = (textBits bytes').getD k false

/-- Sealed texts of words do not agree outside of a window, unless they are the same. -/
theorem eq_of_agreeOutside {sizes values values' : List Nat} (h : Fit sizes values)
    (h' : Fit sizes values') {i : Nat} (hagree : AgreeOutside i (sealed poly 4 (joinWords sizes values))
      (sealed poly 4 (joinWords sizes values'))) :
    sealed poly 4 (joinWords sizes values) = sealed poly 4 (joinWords sizes values') :=
  sealed_eq_of_burst (by decide) rfl (by rw [length_joinWords h, length_joinWords h']) hagree.2

theorem LearnedState.decode_burst {bytes bytes' : Bytes} {state : LearnedState}
    (h : LearnedState.decode bytes = .ok state) (hne : bytes' ≠ bytes) {i : Nat}
    (hagree : AgreeOutside i bytes bytes') : ∃ e, LearnedState.decode bytes' = .error e := by
  cases hdecode : LearnedState.decode bytes' with
  | error e => exact ⟨e, rfl⟩
  | ok state' =>
      obtain rfl := LearnedState.decode_eq_ok_iff.mp h
      obtain rfl := LearnedState.decode_eq_ok_iff.mp hdecode
      rw [state.encode_eq, state'.encode_eq] at hagree hne
      exact absurd (eq_of_agreeOutside state.fit_words state'.fit_words hagree).symm hne

theorem ShadowState.decode_burst {bytes bytes' : Bytes} {state : ShadowState}
    (h : ShadowState.decode bytes = .ok state) (hne : bytes' ≠ bytes) {i : Nat}
    (hagree : AgreeOutside i bytes bytes') : ∃ e, ShadowState.decode bytes' = .error e := by
  cases hdecode : ShadowState.decode bytes' with
  | error e => exact ⟨e, rfl⟩
  | ok state' =>
      obtain ⟨-, rfl⟩ := ShadowState.encode_eq_ok.mp (ShadowState.decode_eq_ok_iff.mp h)
      obtain ⟨-, rfl⟩ := ShadowState.encode_eq_ok.mp (ShadowState.decode_eq_ok_iff.mp hdecode)
      exact absurd (eq_of_agreeOutside state.fit_words state'.fit_words hagree).symm hne

/-- **The records of the gauge are canonical and protected.** -/
theorem gauge_records :
    (∀ state : LearnedState, LearnedState.decode state.encode = .ok state) ∧
    (∀ bytes state, LearnedState.decode bytes = .ok state → bytes = state.encode) ∧
    (∀ (state : ShadowState) bytes, state.encode = .ok bytes → ShadowState.decode bytes = .ok state) ∧
    (∀ bytes state, ShadowState.decode bytes = .ok state → state.encode = .ok bytes) ∧
    (∀ state : ShadowState, (∃ bytes, state.encode = .ok bytes) ↔
      isFinite state.chargeInUah = true) ∧
    (∀ sample : PtimSampleV1, PtimSampleV1.decode sample.encode = .ok sample) ∧
    (∀ bytes sample, PtimSampleV1.decode bytes = .ok sample → bytes = sample.encode) ∧
    (∀ bytes bytes' i, AgreeOutside i bytes bytes' → bytes' ≠ bytes →
      (∀ state, LearnedState.decode bytes = .ok state → ∃ e, LearnedState.decode bytes' = .error e) ∧
        ∀ state, ShadowState.decode bytes = .ok state → ∃ e, ShadowState.decode bytes' = .error e) := by
  refine ⟨fun state => LearnedState.decode_eq_ok_iff.mpr rfl,
    fun bytes state => LearnedState.decode_eq_ok_iff.mp,
    fun state bytes => ShadowState.decode_eq_ok_iff.mpr,
    fun bytes state => ShadowState.decode_eq_ok_iff.mp, ?_,
    fun sample => PtimSampleV1.decode_eq_ok_iff.mpr rfl,
    fun bytes sample => PtimSampleV1.decode_eq_ok_iff.mp, ?_⟩
  · intro state
    constructor
    · rintro ⟨bytes, hencode⟩
      exact (ShadowState.encode_eq_ok.mp hencode).1
    · intro hfinite
      exact ⟨_, ShadowState.encode_eq_ok.mpr ⟨hfinite, rfl⟩⟩
  · intro bytes bytes' i hagree hne
    exact ⟨fun state h => LearnedState.decode_burst h hne hagree,
      fun state h => ShadowState.decode_burst h hne hagree⟩

/-- A change of one byte lies within a window. -/
theorem agreeOutside_set {front rest : Bytes} (b c : UInt8) :
    AgreeOutside (8 * front.length) (front ++ b :: rest) (front ++ c :: rest) := by
  refine ⟨by simp, fun k hk => ?_⟩
  have hcons : ∀ d : UInt8, textBits (front ++ d :: rest) =
      textBits front ++ (byteBits d ++ textBits rest) := fun d => textBits_append ..
  rw [hcons, hcons]
  rcases hk with hk | hk
  · rw [List.getD_append _ _ _ _ (by simpa using hk), List.getD_append _ _ _ _ (by simpa using hk)]
  · have hfront : (textBits front).length ≤ k := by
      rw [length_textBits]
      omega
    rw [List.getD_append_right _ _ _ _ hfront, List.getD_append_right _ _ _ _ hfront,
      List.getD_append_right _ _ _ _ (by rw [length_byteBits, length_textBits]; omega),
      List.getD_append_right _ _ _ _ (by rw [length_byteBits, length_textBits]; omega)]
    rfl

/-- A state whose cycle count stands in the bytes from 24 on. -/
def fiveCycles : LearnedState where
  qmaxUah := ⟨3000000, by decide⟩
  agingFactorPermille := ⟨980, by decide⟩
  cycleCount := ⟨5⟩
  lastSocPermille := ⟨512, by decide⟩
  lastSocSampleSequence := ⟨7, by decide⟩

theorem gauge_records_fiveCycles :
    LearnedState.decode fiveCycles.encode = .ok fiveCycles ∧
      ∃ e, LearnedState.decode (fiveCycles.encode.take 24 ++ 6 :: fiveCycles.encode.drop 25) = .error e := by
  obtain ⟨hlearned, -, -, -, -, -, -, hburst⟩ := gauge_records
  have hsplit : fiveCycles.encode = fiveCycles.encode.take 24 ++ 5 :: fiveCycles.encode.drop 25 := by
    decide +kernel
  refine ⟨hlearned fiveCycles, (hburst _ _ _ (agreeOutside_set 5 6) ?_).1 fiveCycles ?_⟩
  · simp
  · rw [← hsplit]
    exact hlearned fiveCycles

end Mindone.Gauge
