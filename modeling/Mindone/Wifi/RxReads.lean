import Mindone.Lib.Checked
import Mindone.Wifi.RxDrops

/-!
# Mindone.Wifi.RxReads

The receive filter once more, with **every read checked against the end of the text it is made in**
(`tools/wifi/rxfilter-policy.c`). The program with its checks returns what it returns without them
(`rxfilterPacket_eq`), so it never reads outside of a frame, whatever the frame holds.
-/

namespace Mindone.Wifi

namespace RxReads

open Lib RxDrops

/-- A program that never refuses: it returns, or reads outside of its text. -/
abbrev Firmware (α : Type) := Except (Stop Empty) α

def byteAt (bytes : Bytes) (i : Nat) : Firmware Byte :=
  match bytes[i]? with
  | some b => .ok b
  | none => .error .panic

def readBe16 (bytes : Bytes) (i : Nat) : Firmware Nat := do
  let high ← byteAt bytes i
  let low ← byteAt bytes (i + 1)
  return high.toNat * 256 + low.toNat

/-- The UDP checks of both families, on `remaining` bytes. -/
def udpPacket (udp : Bytes) (remaining : Nat) (spared : Nat → Nat → Bool) : Firmware Verdict :=
  if remaining < 8 then pure .inherit
  else do
    let udpSize ← readBe16 udp 4
    if udpSize < 8 ∨ udpSize > remaining then return .inherit
    else
      let source ← readBe16 udp 0
      let destination ← readBe16 udp 2
      if spared source destination then return .inherit else return .drop

def ipv4Packet (ip : Bytes) : Firmware Verdict :=
  if ip.length < 20 then pure .inherit
  else do
    let first ← byteAt ip 0
    let group ← byteAt ip 16
    if first.toNat / 16 ≠ 4 ∨ first.toNat % 16 < 5 ∨ group.toNat / 16 ≠ 14 then return .inherit
    else
      let header := first.toNat % 16 * 4
      let total ← readBe16 ip 2
      let fragment ← readBe16 ip 6
      let protocol ← byteAt ip 9
      if header > ip.length ∨ total < header ∨ total > ip.length ∨ fragment &&& 0x3fff ≠ 0 ∨
          protocol = 2 then return .inherit
      else if protocol = 17 then
        udpPacket (ip.drop header) (total - header) fun source destination =>
          (source = 67 ∧ destination = 68) ∨ (source = 68 ∧ destination = 67)
      else return .drop

/-- The loop of `ipv6_packet`, with the turns that are left. -/
def headers6 : Nat → Byte → Bytes → Nat → Firmware Verdict
  | 0, _, _, _ => pure .inherit
  | turns + 1, protocol, next, remaining =>
      if protocol = 58 ∨ protocol = 44 ∨ protocol = 50 then pure .inherit
      else if isExtension protocol then
        if remaining < 2 then pure .inherit
        else do
          let size ← byteAt next 1
          let header := if protocol = 51 then (size.toNat + 2) * 4 else (size.toNat + 1) * 8
          if header > remaining then return .inherit
          else
            let protocol ← byteAt next 0
            headers6 turns protocol (next.drop header) (remaining - header)
      else if protocol = 17 then
        udpPacket next remaining fun source destination =>
          (source = 547 ∧ destination = 546) ∨ (source = 546 ∧ destination = 547) ∨
            (source = 547 ∧ destination = 547)
      else pure .drop

def ipv6Packet (ip : Bytes) : Firmware Verdict :=
  if ip.length < 40 then pure .inherit
  else do
    let first ← byteAt ip 0
    let group ← byteAt ip 24
    if first.toNat / 16 ≠ 6 ∨ group ≠ 255 then return .inherit
    else
      let payload ← readBe16 ip 4
      if payload = 0 ∨ payload > ip.length - 40 then return .inherit
      else
        let protocol ← byteAt ip 6
        headers6 8 protocol (ip.drop 40) payload

/-- The loop over the VLAN tags. -/
def skipTags (frame : Bytes) : Nat → Nat → Nat → Firmware (Option (Nat × Nat))
  | 0, protocol, header => pure (some (protocol, header))
  | tags + 1, protocol, header =>
      if protocol ≠ 0x8100 ∧ protocol ≠ 0x88a8 then pure (some (protocol, header))
      else if frame.length - header < 4 then pure none
      else do
        let protocol ← readBe16 frame (header + 2)
        skipTags frame tags protocol (header + 4)

/-- `rxfilter_packet`; a null pointer is no frame. -/
def rxfilterPacket (policy : Byte) : Option Bytes → Firmware Verdict
  | none => pure .inherit
  | some frame =>
      if policy &&& 0xf8 ≠ 0 ∨ ¬enabled policy ∨ frame.length < 14 then pure .inherit
      else do
        let first ← byteAt frame 0
        if first &&& 1 = 0 then return .inherit
        else
          let protocol ← readBe16 frame 12
          match ← skipTags frame 2 protocol 14 with
          | none => return .inherit
          | some (protocol, header) =>
              if protocol = 0x0800 ∧ ¬allowsIpv4 policy then ipv4Packet (frame.drop header)
              else if protocol = 0x86dd ∧ ¬allowsIpv6 policy then ipv6Packet (frame.drop header)
              else return .inherit

/-! ### The reads -/

theorem byteAt_eq {bytes : Bytes} {i : Nat} (h : i < bytes.length) :
    byteAt bytes i = pure (bufferOf bytes i) := by
  simp [byteAt, bufferOf, h, pure, Except.pure]

theorem readBe16_eq {bytes : Bytes} {i : Nat} (h : i + 1 < bytes.length) :
    readBe16 bytes i = pure (Wifi.readBe16 (bufferOf bytes) i) := by
  simp [readBe16, Wifi.readBe16, byteAt_eq h, byteAt_eq (Nat.lt_of_succ_lt h)]

/-- A test of a program that returns. -/
theorem ite_pure {α : Type} {c : Prop} [Decidable c] (a b : α) :
    (if c then pure a else pure b : Firmware α) = pure (if c then a else b) := by
  split <;> rfl

theorem udpPacket_eq {udp : Bytes} {remaining : Nat} (h : remaining ≤ udp.length)
    (spared : Nat → Nat → Bool) :
    udpPacket udp remaining spared = pure (Wifi.udpPacket (bufferOf udp) remaining spared) := by
  unfold udpPacket Wifi.udpPacket
  by_cases hshort : remaining < 8
  · rw [if_pos hshort, if_pos hshort]
  · simp only [if_neg hshort, readBe16_eq (show 4 + 1 < udp.length by omega),
      readBe16_eq (show 0 + 1 < udp.length by omega),
      readBe16_eq (show 2 + 1 < udp.length by omega), pure_bind, ite_pure]

theorem ipv4Packet_eq (ip : Bytes) : ipv4Packet ip = pure (Wifi.ipv4Packet (bufferOf ip) ip.length) := by
  unfold ipv4Packet Wifi.ipv4Packet
  by_cases hshort : ip.length < 20
  · rw [if_pos hshort, if_pos (.inl hshort)]
  have hmask : Wifi.readBe16 (bufferOf ip) 6 &&& 0x3fff = Wifi.readBe16 (bufferOf ip) 6 % 0x4000 :=
    Nat.and_two_pow_sub_one_eq_mod _ 14
  simp only [hshort, byteAt_eq (show 0 < ip.length by omega),
    byteAt_eq (show 16 < ip.length by omega), byteAt_eq (show 9 < ip.length by omega),
    readBe16_eq (show 2 + 1 < ip.length by omega), readBe16_eq (show 6 + 1 < ip.length by omega),
    pure_bind, hmask, false_or, if_false]
  split
  · rfl
  · split
    · rfl
    · next hgood =>
        split
        · rw [from_bufferOf]
          exact udpPacket_eq (by rw [List.length_drop]; omega) _
        · rfl

/-- The extension headers, with every read in bounds. -/
theorem headers6_eq (turns : Nat) (protocol : Byte) {next : Bytes} {remaining : Nat}
    (h : remaining ≤ next.length) :
    headers6 turns protocol next remaining =
      pure (ipv6Headers turns protocol (bufferOf next) remaining) := by
  induction turns generalizing protocol next remaining with
  | zero => rfl
  | succ turns ih =>
      unfold headers6 ipv6Headers
      split
      · rfl
      · split
        · by_cases hshort : remaining < 2
          · rw [if_pos hshort, if_pos hshort]
          · simp only [if_neg hshort, byteAt_eq (show 1 < next.length by omega),
              byteAt_eq (show 0 < next.length by omega), pure_bind]
            generalize (if protocol = 51 then ((bufferOf next 1).toNat + 2) * 4
              else ((bufferOf next 1).toNat + 1) * 8) = header
            split
            · rfl
            · next hfits =>
                rw [from_bufferOf]
                exact ih _ (by rw [List.length_drop]; omega)
        · split
          · exact udpPacket_eq h _
          · rfl

theorem ipv6Packet_eq (ip : Bytes) : ipv6Packet ip = pure (Wifi.ipv6Packet (bufferOf ip) ip.length) := by
  unfold ipv6Packet Wifi.ipv6Packet
  by_cases hshort : ip.length < 40
  · rw [if_pos hshort, if_pos (.inl hshort)]
  simp only [hshort, byteAt_eq (show 0 < ip.length by omega),
    byteAt_eq (show 24 < ip.length by omega), byteAt_eq (show 6 < ip.length by omega),
    readBe16_eq (show 4 + 1 < ip.length by omega), pure_bind, false_or, if_false]
  split
  · rfl
  · split
    · rfl
    · next hfits =>
        rw [from_bufferOf]
        exact headers6_eq 8 _ (by rw [List.length_drop]; omega)

theorem skipTags_eq (frame : Bytes) (turns protocol header : Nat) (h : header ≤ frame.length) :
    skipTags frame turns protocol header =
      pure (Wifi.skipTags (bufferOf frame) frame.length turns protocol header) := by
  induction turns generalizing protocol header with
  | zero => rfl
  | succ turns ih =>
      unfold skipTags Wifi.skipTags
      split
      · rfl
      · by_cases hshort : frame.length - header < 4
        · rw [if_pos hshort, if_pos hshort]
        · simp only [if_neg hshort, readBe16_eq (show header + 2 + 1 < frame.length by omega),
            pure_bind]
          exact ih _ _ (by omega)

/-- **The checks change nothing.** -/
theorem rxfilterPacket_eq (policy : Byte) (frame : Option Bytes) :
    rxfilterPacket policy frame =
      pure (Wifi.rxfilterPacket policy (frame.map bufferOf) ((frame.map List.length).getD 0)) := by
  cases frame with
  | none => rfl
  | some frame =>
      simp only [rxfilterPacket, Wifi.rxfilterPacket, Option.map_some, Option.getD_some]
      by_cases hguard : policy &&& 0xf8 ≠ 0 ∨ ¬enabled policy = true ∨ frame.length < 14
      · rw [if_pos hguard, if_pos]
        rcases hguard with h | h | h
        · exact .inl h
        · exact .inr (.inl h)
        · exact .inr (.inr (.inl h))
      · simp only [not_or, Decidable.not_not, Nat.not_lt] at hguard
        obtain ⟨hhigh, hon, hlength⟩ := hguard
        have hshort : ¬frame.length < 14 := by omega
        simp only [hhigh, hon, hshort, byteAt_eq (show 0 < frame.length by omega),
          readBe16_eq (show 12 + 1 < frame.length by omega), pure_bind, ne_eq, not_true_eq_false,
          false_or, if_false]
        split
        · rfl
        · rw [skipTags_eq frame 2 _ 14 hlength, pure_bind]
          have hbounds := skipTags_spec frame 2 12 (by omega)
          cases hskip : Wifi.skipTags (bufferOf frame) frame.length 2 (Wifi.readBe16 (bufferOf frame) 12) 14 with
          | none => rfl
          | some result =>
              obtain ⟨protocol, header⟩ := result
              have hrest : frame.length - header = (frame.drop header).length :=
                List.length_drop.symm
              simp only [ipv4Packet_eq, ipv6Packet_eq, from_bufferOf, hrest]
              split
              · rfl
              · split <;> rfl

/-! ### The filter as a whole -/

/-- **The receive filter.** For every policy and every frame it reads inside the frame, and drops
exactly what the policy drops. Packets that other hosts rely on are kept behind any tags, and so is
every frame that is cut off before its packet is complete. -/
theorem rxfilterPacket_filters (policy : Byte) (frame : Bytes) :
    ∃ verdict, rxfilterPacket policy (some frame) = .ok verdict ∧
      (verdict = .drop ↔ Drops policy frame) ∧
      (∀ tags type packet, Tagged tags (frame.drop 12) type packet → Kept type packet →
        verdict = .inherit) ∧
      (∀ (whole : Bytes) tags type packet size, frame = whole.take size →
        Tagged tags (whole.drop 12) type packet →
        size < 12 + 4 * tags + 2 + announced type packet → verdict = .inherit) := by
  have hiff := rxfilterPacket_eq_drop_iff policy frame
  have hinherit : ¬Drops policy frame →
      Wifi.rxfilterPacket policy (some (bufferOf frame)) frame.length = .inherit := by
    intro hnot
    rw [← hiff] at hnot
    cases hverdict : Wifi.rxfilterPacket policy (some (bufferOf frame)) frame.length with
    | inherit => rfl
    | drop => exact absurd hverdict hnot
  refine ⟨_, rxfilterPacket_eq policy (some frame), hiff, ?_, ?_⟩
  · intro tags type packet htagged hkept
    exact hinherit (rxfilterPacket_kept policy htagged hkept)
  · rintro whole tags type packet size rfl htagged hsize
    exact hinherit (rxfilterPacket_cut policy htagged hsize)

/-- A frame behind one tag: an IPv6 packet with a hop-by-hop header in front of its UDP packet. -/
def tagged6 : Bytes :=
  [0x33, 0x33, 0, 0, 0, 1, 2, 0, 0, 0, 0, 1, 0x81, 0, 0, 5, 0x86, 0xdd] ++
    [0x60, 0, 0, 0, 0, 16, 0, 1] ++ List.replicate 16 0 ++ [255, 2] ++ List.replicate 14 0 ++
    [17, 0, 0, 0, 0, 0, 0, 0] ++ [20, 233, 20, 233, 0, 8, 0, 0]

example : rxfilterPacket 5 (some tagged6) = .ok .drop ∧ rxfilterPacket 6 (some tagged6) = .ok .inherit ∧
    rxfilterPacket 5 (some (tagged6.take 73)) = .ok .inherit := by decide +kernel

end RxReads

end Mindone.Wifi
