import Mindone.Wifi.RxLegacy

/-!
# Mindone.Wifi.RxFirmware

The receive hook of the patched firmware (`tools/wifi/rxfilter-firmware.c`) beside the wrapper that
it replaces. **The hook is the wrapper, except where the wrapper lets a frame pass** that the BSS has
a policy for (`firmwareRx_eq_wrapper`, `firmwareRx_extended`); and its own check of the descriptor
agrees with the one for the host (`firmwarePacket_eq_soc2`).
-/

namespace Mindone.Wifi

/-- `controls` -/
def controls (m : Memory) : Option Address :=
  let base := m.load32 0xf03adc2c
  if base = 0 then none else some (base + 0xf4)

/-- The status of a BSS, from its two control bytes. -/
def controlStatus (m : Memory) (state : Address) (index : Byte) : Byte :=
  rxfilterQueryControlStatus (m (state + index.setWidth 32)) (m (state + index.setWidth 32 + 4)) index

/-- The descriptor is of a received frame of a BSS. -/
def isSelected (m : Memory) (descriptor : Address) : Bool :=
  ¬ (m (descriptor + 0x28) ≠ 2 ∨ m (descriptor + 0x48) ≠ 1 ∨ m (descriptor + 0x49) ≠ 0 ∨
    m (descriptor + 0x69) ≥ 4)

/-- The frame lies in the buffer of the descriptor. -/
def isInBuffer (m : Memory) (descriptor : Address) : Bool :=
  let raw := m.load32 (descriptor + 0x24)
  let total := (m.load16 (descriptor + 0x2a)).toNat
  let ethernet := m.load32 (descriptor + 0x2c)
  ¬ (raw = 0 ∨ total > 0xffffffff - raw.toNat ∨ ethernet < raw ∨ (ethernet - raw).toNat > total)

/-- What `rxfilter_packet` says of the frame. -/
def frameVerdict (m : Memory) (descriptor : Address) (policy : Byte) : Verdict :=
  let raw := m.load32 (descriptor + 0x24)
  let total := (m.load16 (descriptor + 0x2a)).toNat
  let ethernet := m.load32 (descriptor + 0x2c)
  rxfilterPacket policy (m.buffer ethernet) (total - (ethernet - raw).toNat)

/-- `rxfilter_firmware_packet` -/
def rxfilterFirmwarePacket (m : Memory) (descriptor : Address) : Verdict :=
  if ¬ isSelected m descriptor then .inherit
  else
    match controls m with
    | none => .inherit
    | some state =>
        let policy := controlStatus m state (m (descriptor + 0x69))
        if policy = statusInvalid ∨ ¬ enabled policy then .inherit
        else if ¬ isInBuffer m descriptor then .inherit
        else frameVerdict m descriptor (policy &&& 7)

/-- `rxfilter_firmware_rx` -/
def rxfilterFirmwareRx (o : Originals) (f : Firmware) (descriptor : Address)
    (broadcast : BitVec 32) : BitVec 32 × Firmware :=
  let group := o.multicast f.memory descriptor
  let bitmap := rxfilterLegacyBitmap o f.memory descriptor
  if ¬ featureFlag f.memory then (0, f)
  else
    let broadcast := broadcast &&& 255
    if ¬ (broadcast ≠ 0 ∨ group ≠ 0 ∨ bitmap ≠ 0) then
      if rxfilterFirmwarePacket f.memory descriptor = .inherit then (0, f)
      else rxfilterLegacyRecordDrop o f descriptor (dropReason broadcast 1)
    else rxfilterLegacyRecordDrop o f descriptor (dropReason broadcast group)

/-! ### The policy of a BSS -/

/-- The policies that the control bytes stand for. -/
def policies (m : Memory) (index : Nat) : Byte :=
  match controls m with
  | none => 0
  | some state => statusPolicy (controlStatus m state (BitVec.ofNat 8 index))

/-- The policy of the frame's BSS. -/
def framePolicy (m : Memory) (descriptor : Address) : Byte :=
  policies m (m (descriptor + 0x69)).toNat

/-- The frame's BSS has an extended policy. -/
def hasPolicy (m : Memory) (descriptor : Address) : Bool :=
  m (descriptor + 0x69) < 4 ∧ enabled (framePolicy m descriptor)

theorem enabled_and_seven (status : Byte) : enabled (status &&& 7) = enabled status := by
  unfold enabled
  rw [BitVec.and_assoc]
  rfl

theorem enabled_statusPolicy (status : Byte) :
    enabled (statusPolicy status) = true ↔ ¬ (status = statusInvalid ∨ ¬ enabled status) := by
  unfold statusPolicy
  split
  · rename_i heq
    exact ⟨fun h => absurd h (by decide), fun h => absurd (.inl heq) h⟩
  · rename_i hne
    rw [enabled_and_seven, not_or, not_not]
    exact ⟨fun h => ⟨hne, h⟩, And.right⟩

theorem framePolicy_eq {m : Memory} {descriptor state : Address} (h : controls m = some state) :
    framePolicy m descriptor =
      statusPolicy (controlStatus m state (m (descriptor + 0x69))) := by
  unfold framePolicy policies
  rw [h]
  dsimp only
  rw [BitVec.ofNat_toNat, BitVec.setWidth_eq]

theorem isSelected_lt {m : Memory} {descriptor : Address} (h : isSelected m descriptor = true) :
    m (descriptor + 0x69) < 4 := by
  unfold isSelected at h
  rw [decide_eq_true_iff, not_or, not_or, not_or] at h
  exact BitVec.not_le.mp h.2.2.2

/-- **The packets that the hook drops beyond the wrapper.** -/
theorem firmwarePacket_eq (m : Memory) (descriptor : Address) :
    rxfilterFirmwarePacket m descriptor =
      if isSelected m descriptor ∧ hasPolicy m descriptor ∧ isInBuffer m descriptor then
        frameVerdict m descriptor (framePolicy m descriptor)
      else .inherit := by
  unfold rxfilterFirmwarePacket
  by_cases hselected : isSelected m descriptor = true
  · rw [if_neg (not_not.mpr hselected)]
    cases hcontrols : controls m with
    | none =>
        have hpolicy : ¬ hasPolicy m descriptor = true := by
          unfold hasPolicy framePolicy policies
          rw [hcontrols, decide_eq_true_iff]
          exact fun h => absurd h.2 (show ¬ enabled 0 = true by decide)
        rw [if_neg fun h => hpolicy h.2.1]
    | some state =>
        have hpolicy : hasPolicy m descriptor = true ↔
            ¬ (controlStatus m state (m (descriptor + 0x69)) = statusInvalid ∨
              ¬ enabled (controlStatus m state (m (descriptor + 0x69)))) := by
          unfold hasPolicy
          rw [decide_eq_true_iff, framePolicy_eq hcontrols, enabled_statusPolicy]
          exact ⟨And.right, fun h => ⟨isSelected_lt hselected, h⟩⟩
        dsimp only
        by_cases hnone : controlStatus m state (m (descriptor + 0x69)) = statusInvalid ∨
            ¬ enabled (controlStatus m state (m (descriptor + 0x69)))
        · rw [if_pos hnone, if_neg fun h => absurd hnone (hpolicy.mp h.2.1)]
        · rw [if_neg hnone]
          by_cases hbuffer : isInBuffer m descriptor = true
          · rw [if_neg (not_not.mpr hbuffer), if_pos ⟨hselected, hpolicy.mpr hnone, hbuffer⟩,
              framePolicy_eq hcontrols]
            unfold statusPolicy
            rw [if_neg (not_or.mp hnone).1]
          · rw [if_pos hbuffer, if_neg fun h => hbuffer h.2.2]
  · rw [if_pos hselected, if_neg fun h => hselected h.1]

theorem firmwarePacket_drop_iff (m : Memory) (descriptor : Address) :
    rxfilterFirmwarePacket m descriptor = .drop ↔ isSelected m descriptor = true ∧
      hasPolicy m descriptor = true ∧ isInBuffer m descriptor = true ∧
      frameVerdict m descriptor (framePolicy m descriptor) = .drop := by
  rw [firmwarePacket_eq]
  split
  · rename_i h
    exact ⟨fun hdrop => ⟨h.1, h.2.1, h.2.2, hdrop⟩, fun hdrop => hdrop.2.2.2⟩
  · rename_i h
    exact ⟨nofun, fun hdrop => absurd ⟨hdrop.1, hdrop.2.1, hdrop.2.2.1⟩ h⟩

/-! ### The hook and the wrapper -/

section Hook

variable (o : Originals) (f : Firmware) (descriptor : Address) (broadcast : BitVec 32)

/-- The wrapper finds a reason to drop. -/
def legacyHit : Bool :=
  broadcast &&& 255 ≠ 0 ∨ o.multicast f.memory descriptor ≠ 0 ∨
    rxfilterLegacyBitmap o f.memory descriptor ≠ 0

variable {o f descriptor broadcast}

theorem legacyHit_of_drop (h : (rxfilterLegacyWrapper o f descriptor broadcast).1 = 1) :
    featureFlag f.memory = true ∧ legacyHit o f descriptor broadcast = true := by
  unfold rxfilterLegacyWrapper at h
  dsimp only at h
  split at h
  · exact absurd h (show ¬ (0 : BitVec 32) = 1 by decide)
  · rename_i hhit
    obtain ⟨hflag, hhit⟩ := not_or.mp hhit
    exact ⟨not_not.mp hflag, decide_eq_true (not_not.mp hhit)⟩

theorem wrapper_of_hit (hflag : featureFlag f.memory = true)
    (h : legacyHit o f descriptor broadcast = true) :
    rxfilterLegacyWrapper o f descriptor broadcast = rxfilterLegacyRecordDrop o f descriptor
      (dropReason (broadcast &&& 255) (o.multicast f.memory descriptor)) := by
  unfold rxfilterLegacyWrapper
  dsimp only
  rw [if_neg (not_or.mpr ⟨not_not.mpr hflag, not_not.mpr (decide_eq_true_iff.mp h)⟩)]

theorem wrapper_of_no_flag (hflag : featureFlag f.memory = false) :
    rxfilterLegacyWrapper o f descriptor broadcast = (0, f) := by
  unfold rxfilterLegacyWrapper
  dsimp only
  rw [hflag, if_pos (.inl nofun)]

/-- Where the wrapper finds a reason, the hook does as the wrapper. -/
theorem firmwareRx_of_hit (h : legacyHit o f descriptor broadcast = true) :
    rxfilterFirmwareRx o f descriptor broadcast =
      rxfilterLegacyWrapper o f descriptor broadcast := by
  have hhit := decide_eq_true_iff.mp h
  unfold rxfilterFirmwareRx rxfilterLegacyWrapper
  dsimp only
  by_cases hflag : featureFlag f.memory = true
  · rw [if_neg (not_not.mpr hflag), if_neg (not_not.mpr hhit),
      if_neg (not_or.mpr ⟨not_not.mpr hflag, not_not.mpr hhit⟩)]
  · rw [if_pos hflag, if_pos (.inl hflag)]

/-- Where it finds none, the hook looks at the packet. -/
theorem firmwareRx_of_no_hit (h : legacyHit o f descriptor broadcast = false) :
    rxfilterLegacyWrapper o f descriptor broadcast = (0, f) ∧
      rxfilterFirmwareRx o f descriptor broadcast =
        if featureFlag f.memory ∧ rxfilterFirmwarePacket f.memory descriptor = .drop then
          rxfilterLegacyRecordDrop o f descriptor 10
        else (0, f) := by
  have hmiss := decide_eq_false_iff_not.mp h
  refine ⟨?_, ?_⟩
  · unfold rxfilterLegacyWrapper
    dsimp only
    rw [if_pos (.inr hmiss)]
  · unfold rxfilterFirmwareRx
    dsimp only
    by_cases hflag : featureFlag f.memory = true
    · have hbroadcast : broadcast &&& 255 = 0 := not_not.mp (not_or.mp hmiss).1
      rw [if_neg (not_not.mpr hflag), if_pos hmiss, hbroadcast]
      cases hpacket : rxfilterFirmwarePacket f.memory descriptor with
      | inherit => rw [if_pos rfl, if_neg fun h => absurd h.2 nofun]
      | drop =>
          rw [if_neg nofun, if_pos ⟨hflag, rfl⟩]
          rfl
    · rw [if_pos hflag, if_neg fun h => hflag h.1]

/-- **The hook is the wrapper** where the wrapper drops or the BSS has no extended policy. -/
theorem firmwareRx_eq_wrapper
    (h : (rxfilterLegacyWrapper o f descriptor broadcast).1 = 1 ∨
      hasPolicy f.memory descriptor = false) :
    rxfilterFirmwareRx o f descriptor broadcast =
      rxfilterLegacyWrapper o f descriptor broadcast := by
  cases hhit : legacyHit o f descriptor broadcast with
  | true => exact firmwareRx_of_hit hhit
  | false =>
      have hpolicy : hasPolicy f.memory descriptor = false := by
        refine h.resolve_left fun hdrop => ?_
        rw [(legacyHit_of_drop hdrop).2] at hhit
        cases hhit
      obtain ⟨hwrapper, hhook⟩ := firmwareRx_of_no_hit hhit
      rw [hwrapper, hhook]
      refine if_neg fun h => ?_
      obtain ⟨-, hyes, -⟩ := (firmwarePacket_drop_iff _ _).mp h.2
      rw [hpolicy] at hyes
      cases hyes

/-- The hook drops a frame beyond the wrapper. -/
def dropsExtended (m : Memory) (descriptor : Address) : Prop :=
  featureFlag m = true ∧ isSelected m descriptor = true ∧ isInBuffer m descriptor = true ∧
    frameVerdict m descriptor (framePolicy m descriptor) = .drop ∧
    permitsCounting m descriptor = true

/-- **Otherwise the hook drops what the policy drops**, with reason 10, and does nothing else. -/
theorem firmwareRx_extended
    (hpass : (rxfilterLegacyWrapper o f descriptor broadcast).1 ≠ 1)
    (hpolicy : hasPolicy f.memory descriptor = true) :
    (dropsExtended f.memory descriptor ∧
      rxfilterFirmwareRx o f descriptor broadcast = rxfilterLegacyRecordDrop o f descriptor 10 ∧
      ∃ m, rxfilterLegacyRecordDrop o f descriptor 10 = (1, ⟨m, 10 :: f.reasons⟩)) ∨
    (¬ dropsExtended f.memory descriptor ∧
      rxfilterFirmwareRx o f descriptor broadcast = (0, f)) := by
  cases hhit : legacyHit o f descriptor broadcast with
  | true =>
      -- the wrapper tried to drop the frame, so that the flag or the station does not permit it
      rw [firmwareRx_of_hit hhit]
      have hmust : ¬ (featureFlag f.memory = true ∧ permitsCounting f.memory descriptor = true) := by
        rintro ⟨hflag, hpermits⟩
        obtain ⟨m, hdrop⟩ := recordDrop_of_permits o hpermits
          (dropReason (broadcast &&& 255) (o.multicast f.memory descriptor))
        rw [wrapper_of_hit hflag hhit, hdrop] at hpass
        exact hpass rfl
      refine .inr ⟨fun h => hmust ⟨h.1, h.2.2.2.2⟩, ?_⟩
      by_cases hflag : featureFlag f.memory = true
      · rw [wrapper_of_hit hflag hhit]
        exact recordDrop_of_not_permits o (Bool.eq_false_iff.mpr fun h => hmust ⟨hflag, h⟩) _
      · exact wrapper_of_no_flag (Bool.eq_false_iff.mpr hflag)
  | false =>
      rw [(firmwareRx_of_no_hit hhit).2]
      split
      · rename_i hdrop
        obtain ⟨hflag, hpacket⟩ := hdrop
        obtain ⟨hselected, -, hbuffer, hverdict⟩ := (firmwarePacket_drop_iff _ _).mp hpacket
        by_cases hpermits : permitsCounting f.memory descriptor = true
        · exact .inl ⟨⟨hflag, hselected, hbuffer, hverdict, hpermits⟩, rfl,
            recordDrop_of_permits o hpermits 10⟩
        · exact .inr ⟨fun h => hpermits h.2.2.2.2,
            recordDrop_of_not_permits o (Bool.eq_false_iff.mpr hpermits) 10⟩
      · rename_i hdrop
        exact .inr ⟨fun h => hdrop ⟨h.1, (firmwarePacket_drop_iff _ _).mpr
          ⟨h.2.1, hpolicy, h.2.2.1, h.2.2.2.1⟩⟩, rfl⟩

end Hook

/-! ### The check for the host -/

section Host

variable {m : Memory} {p descriptor : Address}

theorem readLe16_bytesAt (m : Memory) (p : Address) (i : Nat) :
    readLe16 (m.bytesAt p) i = m.load16 (p + BitVec.ofNat 32 i) := by
  unfold readLe16 Memory.load16 Memory.bytesAt
  rw [BitVec.ofNat_add, ← BitVec.add_assoc]
  rfl

theorem readLe32_bytesAt (m : Memory) (p : Address) (i : Nat) :
    readLe32 (m.bytesAt p) i = m.load32 (p + BitVec.ofNat 32 i) := by
  unfold readLe32 Memory.load32
  rw [readLe16_bytesAt, readLe16_bytesAt, BitVec.ofNat_add, ← BitVec.add_assoc]
  rfl

/-- Going on from the start of a buffer. -/
theorem bytesAt_from (m : Memory) (p q : Address) :
    (m.bytesAt p).from (q - p).toNat = m.bytesAt q := by
  funext i
  unfold Buffer.from Memory.bytesAt
  rw [BitVec.ofNat_add, BitVec.ofNat_toNat, BitVec.setWidth_eq, ← BitVec.add_assoc,
    BitVec.add_comm p, BitVec.sub_add_cancel]

/-- A policy that is not enabled drops nothing. -/
theorem rxfilterPacket_of_not_enabled {policy : Byte} (h : enabled policy = false)
    (frame : Option Buffer) (length : Nat) : rxfilterPacket policy frame length = .inherit := by
  unfold rxfilterPacket
  cases frame with
  | none => rfl
  | some frame => exact if_pos (.inr (.inl (by rw [h]; nofun)))

/-- The addresses of the layers and the lengths agree with a buffer of `rawSize` bytes. -/
structure Consistent (m : Memory) (descriptor : Address) (rawSize : Nat) : Prop where
  size : (m.load16 (descriptor + 0x2a)).toNat ≤ rawSize
  order : m.load32 (descriptor + 0x2c) ≤ m.load32 (descriptor + 0x30)
  header : (m.load32 (descriptor + 0x2c) - m.load32 (descriptor + 0x24)).toNat + 14 ≤
    (m.load32 (descriptor + 0x30) - m.load32 (descriptor + 0x24)).toNat
  inside : (m.load32 (descriptor + 0x30) - m.load32 (descriptor + 0x24)).toNat +
    (m.load16 (descriptor + 0x34)).toNat = (m.load16 (descriptor + 0x2a)).toNat

/-- A frame in a buffer is not at the null pointer. -/
theorem ethernet_ne_zero (h : isInBuffer m descriptor = true) :
    m.load32 (descriptor + 0x2c) ≠ 0 := by
  unfold isInBuffer at h
  rw [decide_eq_true_iff, not_or, not_or, not_or] at h
  obtain ⟨hraw, -, hbefore, -⟩ := h
  intro hzero
  rw [hzero, BitVec.lt_def, Nat.not_lt] at hbefore
  exact hraw (BitVec.eq_of_toNat_eq (Nat.le_zero.mp hbefore))

theorem soc2_of_not_selected {rawSize descriptorSize : Nat} {raw : Option Buffer}
    (h : isSelected m descriptor = false) :
    rxfilterSoc2Packet (some (policies m)) (some (m.bytesAt descriptor)) descriptorSize raw rawSize
      (m.load32 (descriptor + 0x24)) = .inherit := by
  unfold isSelected at h
  rw [decide_eq_false_iff_not, not_not] at h
  unfold rxfilterSoc2Packet
  cases raw with
  | none => rfl
  | some raw =>
      refine if_pos (.inr ?_)
      rcases h with h | h | h | h
      · exact .inl h
      · exact .inr (.inl h)
      · exact .inr (.inr (.inl h))
      · exact .inr (.inr (.inr (.inl h)))

/-- The host's check of a descriptor whose buffer is there. -/
theorem soc2_of_selected {rawSize descriptorSize : Nat}
    (hconsistent : Consistent m descriptor rawSize) (hsize : 0x6a ≤ descriptorSize)
    (hselected : isSelected m descriptor = true) (hraw : m.load32 (descriptor + 0x24) ≠ 0) :
    rxfilterSoc2Packet (some (policies m)) (some (m.bytesAt descriptor)) descriptorSize
        (some (m.bytesAt (m.load32 (descriptor + 0x24)))) rawSize (m.load32 (descriptor + 0x24)) =
      if isInBuffer m descriptor then
        rxfilterPacket (framePolicy m descriptor) (some (m.bytesAt (m.load32 (descriptor + 0x2c))))
          ((m.load16 (descriptor + 0x2a)).toNat -
            (m.load32 (descriptor + 0x2c) - m.load32 (descriptor + 0x24)).toNat)
      else .inherit := by
  obtain ⟨htotal, horder, hheader, hinside⟩ := hconsistent
  -- The offsets of a consistent descriptor stay within the length of the packet.
  have hoffset3 : (m.load32 (descriptor + 0x30) - m.load32 (descriptor + 0x24)).toNat ≤
      (m.load16 (descriptor + 0x2a)).toNat := Nat.le.intro hinside
  have hoffset2 : (m.load32 (descriptor + 0x2c) - m.load32 (descriptor + 0x24)).toNat ≤
      (m.load16 (descriptor + 0x2a)).toNat := by omega
  have hfourteen : 14 ≤ (m.load32 (descriptor + 0x30) - m.load32 (descriptor + 0x24)).toNat -
      (m.load32 (descriptor + 0x2c) - m.load32 (descriptor + 0x24)).toNat := by omega
  have hrest : (m.load16 (descriptor + 0x2a)).toNat -
      (m.load32 (descriptor + 0x30) - m.load32 (descriptor + 0x24)).toNat =
      (m.load16 (descriptor + 0x34)).toNat := by omega
  -- The firmware's choice of the descriptor is the first test of the host.
  unfold isSelected at hselected
  rw [decide_eq_true_iff, not_or, not_or, not_or] at hselected
  unfold rxfilterSoc2Packet isInBuffer
  simp only [readLe16_bytesAt, readLe32_bytesAt, bytesAt_from]
  rw [if_neg]
  · split
    -- A buffer that does not fit is left to the default,
    · rename_i hout
      rw [if_neg]
      rw [decide_eq_true_iff, not_not]
      rcases hout with h | h | h | h
      · exact absurd htotal (Nat.not_le.mpr h)
      · exact .inr (.inl h)
      · exact .inr (.inr (.inl h))
      · exact absurd horder (BitVec.not_le.mpr h)
    · rename_i hout
      obtain ⟨-, hout⟩ := not_or.mp hout
      obtain ⟨hlong, hout⟩ := not_or.mp hout
      obtain ⟨hbefore, -⟩ := not_or.mp hout
      -- and for one that does both sides look at the same frame.
      rw [if_neg, if_pos]
      · rfl
      · rw [decide_eq_true_iff]
        exact not_or.mpr ⟨hraw, not_or.mpr ⟨hlong, not_or.mpr ⟨hbefore,
          Nat.not_lt.mpr hoffset2⟩⟩⟩
      · exact not_or.mpr ⟨Nat.not_lt.mpr hoffset2, not_or.mpr ⟨Nat.not_lt.mpr hoffset3,
          not_or.mpr ⟨Nat.not_lt.mpr hfourteen, not_not.mpr hrest⟩⟩⟩
  · refine not_or.mpr ⟨Nat.not_lt.mpr hsize, not_or.mpr ⟨hselected.1, not_or.mpr
      ⟨hselected.2.1, not_or.mpr ⟨hselected.2.2.1, not_or.mpr ⟨hselected.2.2.2, ?_⟩⟩⟩⟩⟩
    exact not_not.mpr rfl

/-- **The check of the firmware agrees with the one for the host.** -/
theorem firmwarePacket_eq_soc2 {rawSize descriptorSize : Nat}
    (hconsistent : Consistent m descriptor rawSize) (hsize : 0x6a ≤ descriptorSize) :
    rxfilterFirmwarePacket m descriptor =
      rxfilterSoc2Packet (some (policies m)) (some (m.bytesAt descriptor)) descriptorSize
        (m.buffer (m.load32 (descriptor + 0x24))) rawSize (m.load32 (descriptor + 0x24)) := by
  rw [firmwarePacket_eq]
  by_cases hselected : isSelected m descriptor = true
  · by_cases hraw : m.load32 (descriptor + 0x24) = 0
    · have hbuffer : ¬ isInBuffer m descriptor = true := by
        unfold isInBuffer
        rw [decide_eq_true_iff, not_not]
        exact .inl hraw
      unfold Memory.buffer
      rw [if_neg fun h => hbuffer h.2.2, if_pos hraw]
      rfl
    · unfold Memory.buffer
      rw [if_neg hraw, soc2_of_selected hconsistent hsize hselected hraw]
      by_cases hbuffer : isInBuffer m descriptor = true
      · have hethernet := ethernet_ne_zero hbuffer
        rw [if_pos hbuffer]
        by_cases hpolicy : hasPolicy m descriptor = true
        · rw [if_pos ⟨hselected, hpolicy, hbuffer⟩]
          unfold frameVerdict Memory.buffer
          dsimp only
          rw [if_neg hethernet]
        · rw [if_neg fun h => hpolicy h.2.1, rxfilterPacket_of_not_enabled]
          refine Bool.eq_false_iff.mpr fun h => hpolicy ?_
          exact decide_eq_true ⟨isSelected_lt hselected, h⟩
      · rw [if_neg hbuffer, if_neg fun h => hbuffer h.2.2]
  · rw [soc2_of_not_selected (Bool.eq_false_iff.mpr hselected), if_neg fun h => hselected h.1]

end Host

/-- **The hook is a conservative extension of the wrapper.** It does as the wrapper where that drops
or the BSS has no extended policy. Otherwise it drops the frame, with reason 10, if and only if the
flag is set, the descriptor is of a received frame that lies in its buffer, the policy drops it and
the station record permits counting. On consistent descriptors its check is the one for the
host. -/
theorem firmwareRx_conservative :
    (∀ o f descriptor broadcast, (rxfilterLegacyWrapper o f descriptor broadcast).1 = 1 ∨
        hasPolicy f.memory descriptor = false →
      rxfilterFirmwareRx o f descriptor broadcast =
        rxfilterLegacyWrapper o f descriptor broadcast) ∧
    (∀ o f descriptor broadcast, (rxfilterLegacyWrapper o f descriptor broadcast).1 ≠ 1 →
      hasPolicy f.memory descriptor = true →
      (dropsExtended f.memory descriptor ∧
        rxfilterFirmwareRx o f descriptor broadcast = rxfilterLegacyRecordDrop o f descriptor 10 ∧
        ∃ m, rxfilterLegacyRecordDrop o f descriptor 10 = (1, ⟨m, 10 :: f.reasons⟩)) ∨
      (¬ dropsExtended f.memory descriptor ∧
        rxfilterFirmwareRx o f descriptor broadcast = (0, f))) ∧
    ∀ m descriptor rawSize descriptorSize, Consistent m descriptor rawSize →
      0x6a ≤ descriptorSize →
      rxfilterFirmwarePacket m descriptor =
        rxfilterSoc2Packet (some (policies m)) (some (m.bytesAt descriptor)) descriptorSize
          (m.buffer (m.load32 (descriptor + 0x24))) rawSize (m.load32 (descriptor + 0x24)) :=
  ⟨fun _ _ _ _ h => firmwareRx_eq_wrapper h, fun _ _ _ _ hpass => firmwareRx_extended hpass,
    fun _ _ _ _ hconsistent => firmwarePacket_eq_soc2 hconsistent⟩

/-- A memory with a multicast frame for a BSS that drops them; the type is what the descriptor
says. -/
def sampleMemory (type : Byte) : Memory := fun p =>
  ([(0x1025, 0x20), (0x1028, type), (0x102a, 34), (0x102d, 0x20), (0x1030, 14), (0x1031, 0x20),
    (0x1034, 20), (0x1048, 1), (0x2000, 1), (0x200c, 8), (0x200e, 0x45), (0x2011, 20),
    (0x2017, 1), (0x201e, 0xe0), (0x30f4, 0x83), (0x30f8, 0x83), (0xf03adc2d, 0x30),
    (0xf03add1e, 1)].lookup p).getD 0

/-- Helpers that find nothing. -/
def sampleOriginals : Originals := ⟨fun _ _ => 0, fun _ _ => 0, fun m _ => m⟩

/-- The hook drops the multicast frame, with its reason, and does as the wrapper for a descriptor of
a BSS without a policy; its check is the one for the host. -/
theorem firmwareRx_conservative_sample :
    (∃ m, rxfilterFirmwareRx sampleOriginals ⟨sampleMemory 2, []⟩ 0x1000 0 = (1, ⟨m, [10]⟩)) ∧
    rxfilterFirmwareRx sampleOriginals ⟨fun _ => 0, []⟩ 0x1000 0 =
      rxfilterLegacyWrapper sampleOriginals ⟨fun _ => 0, []⟩ 0x1000 0 ∧
    rxfilterFirmwarePacket (sampleMemory 2) 0x1000 =
      rxfilterSoc2Packet (some (policies (sampleMemory 2))) (some ((sampleMemory 2).bytesAt 0x1000))
        0x6a ((sampleMemory 2).buffer ((sampleMemory 2).load32 (0x1000 + 0x24))) 34
        ((sampleMemory 2).load32 (0x1000 + 0x24)) := by
  refine ⟨?_, firmwareRx_conservative.1 _ _ _ _ (.inr (by decide +kernel)),
    firmwareRx_conservative.2.2 (sampleMemory 2) 0x1000 34 0x6a
      ⟨by decide +kernel, by decide +kernel, by decide +kernel, by decide +kernel⟩ (by decide)⟩
  have hdrops : dropsExtended (sampleMemory 2) 0x1000 :=
    ⟨by decide +kernel, by decide +kernel, by decide +kernel, by decide +kernel, by decide +kernel⟩
  rcases firmwareRx_conservative.2.1 sampleOriginals ⟨sampleMemory 2, []⟩ 0x1000 0
    (by decide +kernel) (by decide +kernel) with ⟨-, hhook, m, hrecord⟩ | ⟨hkept, -⟩
  · exact ⟨m, hhook.trans hrecord⟩
  · exact absurd hdrops hkept

/-- **The policy alone does not decide**: the hook looks at the descriptor too. -/
theorem firmwareRx_not_by_policy :
    ¬ ∀ o f descriptor broadcast, (rxfilterLegacyWrapper o f descriptor broadcast).1 ≠ 1 →
      hasPolicy f.memory descriptor = true →
      ((∃ m, rxfilterFirmwareRx o f descriptor broadcast = (1, ⟨m, 10 :: f.reasons⟩)) ↔
        featureFlag f.memory = true ∧
        frameVerdict f.memory descriptor (framePolicy f.memory descriptor) = .drop ∧
        permitsCounting f.memory descriptor = true) := by
  intro h
  obtain ⟨m, hdrop⟩ := (h sampleOriginals ⟨sampleMemory 0, []⟩ 0x1000 0 (by decide +kernel)
    (by decide +kernel)).mpr ⟨by decide +kernel, by decide +kernel, by decide +kernel⟩
  have hkept : (rxfilterFirmwareRx sampleOriginals ⟨sampleMemory 0, []⟩ 0x1000 0).1 = 0 := by
    decide +kernel
  rw [hdrop] at hkept
  exact absurd hkept (show ¬ (1 : BitVec 32) = 0 by decide)

end Mindone.Wifi
