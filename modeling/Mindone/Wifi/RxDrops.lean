import Mindone.Wifi.RxPolicy
import Mathlib.Data.List.GetD

/-!
# Mindone.Wifi.RxDrops

**What the receive filter may drop**, by the fields of the headers and not by the program (`Drops`):
complete, unfragmented multicast packets of a family that the policy does not allow, which neither
the neighbour discovery nor the address configuration depends on. `rxfilterPacket` drops exactly
these (`rxfilterPacket_eq_drop_iff`); what other hosts rely on, and every packet that is cut short,
is kept (`Kept`).
-/

namespace Mindone.Wifi

namespace RxDrops

abbrev Bytes := List Byte

/-- A frame as the program sees it. -/
def bufferOf (bytes : Bytes) : Buffer := fun i => bytes.getD i 0

/-- A byte of a text. -/
abbrev byte (bytes : Bytes) (i : Nat) : Nat := (bufferOf bytes i).toNat

/-- A word of two bytes, the high one first. -/
abbrev word (bytes : Bytes) (i : Nat) : Nat := readBe16 (bufferOf bytes) i

/-! ### Headers -/

/-- Types of the tags that may stand in front of the type of a frame. -/
def IsTag (type : Nat) : Prop := type = 0x8100 ∨ type = 0x88a8

/-- The text behind the addresses of a frame is as many tags, the type of the frame and its packet. -/
inductive Tagged : Nat → Bytes → Nat → Bytes → Prop
  | plain {bytes} (length : 2 ≤ bytes.length) (type : ¬IsTag (word bytes 0)) :
      Tagged 0 bytes (word bytes 0) (bytes.drop 2)
  | tag {tags bytes type packet} (length : 4 ≤ bytes.length) (tag : IsTag (word bytes 0))
      (rest : Tagged tags (bytes.drop 4) type packet) : Tagged (tags + 1) bytes type packet

/-- A UDP packet whose length is consistent. -/
structure UdpFits (udp : Bytes) : Prop where
  header : 8 ≤ udp.length
  least : 8 ≤ word udp 4
  most : word udp 4 ≤ udp.length

/-- From the port of a DHCP server to that of a client, or back. -/
def Dhcp (udp : Bytes) : Prop :=
  (word udp 0 = 67 ∧ word udp 2 = 68) ∨ (word udp 0 = 68 ∧ word udp 2 = 67)

/-- The same of DHCPv6, where relays use the port of the server on both sides. -/
def Dhcp6 (udp : Bytes) : Prop :=
  (word udp 0 = 547 ∧ word udp 2 = 546) ∨ (word udp 0 = 546 ∧ word udp 2 = 547) ∨
    (word udp 0 = 547 ∧ word udp 2 = 547)

/-- The length of an IPv4 header. -/
def header4 (ip : Bytes) : Nat := byte ip 0 % 16 * 4

/-- The payload of an IPv4 packet. -/
def payload4 (ip : Bytes) : Bytes := (ip.drop (header4 ip)).take (word ip 2 - header4 ip)

/-- A complete, unfragmented IPv4 packet to a multicast address that nobody depends on. -/
structure Drops4 (ip : Bytes) : Prop where
  length : 20 ≤ ip.length
  version : byte ip 0 / 16 = 4
  header : 20 ≤ header4 ip
  total : header4 ip ≤ word ip 2
  complete : word ip 2 ≤ ip.length
  multicast : byte ip 16 / 16 = 14
  unfragmented : word ip 6 % 0x4000 = 0
  notIgmp : byte ip 9 ≠ 2
  udp : byte ip 9 = 17 → UdpFits (payload4 ip) ∧ ¬Dhcp (payload4 ip)

/-- Hop-by-hop, routing, destination options and authentication. -/
def IsExtension (protocol : Nat) : Prop :=
  protocol = 0 ∨ protocol = 43 ∨ protocol = 60 ∨ protocol = 51

/-- The length of an extension header. -/
def extensionSize (protocol : Nat) (bytes : Bytes) : Nat :=
  if protocol = 51 then (byte bytes 1 + 2) * 4 else (byte bytes 1 + 1) * 8

/-- As many extension headers lie inside a payload, and what comes behind them ends the chain. -/
inductive Chain (Last : Nat → Bytes → Prop) : Nat → Nat → Bytes → Prop
  | last {protocol bytes} (other : ¬IsExtension protocol) (last : Last protocol bytes) :
      Chain Last 0 protocol bytes
  | header {headers protocol bytes} (extension : IsExtension protocol) (length : 2 ≤ bytes.length)
      (fits : extensionSize protocol bytes ≤ bytes.length)
      (rest : Chain Last headers (byte bytes 0) (bytes.drop (extensionSize protocol bytes))) :
      Chain Last (headers + 1) protocol bytes

/-- What the chain of a packet that may be dropped ends in: not ICMPv6, a fragment or ESP. -/
structure Droppable (protocol : Nat) (bytes : Bytes) : Prop where
  notIcmp : protocol ≠ 58
  notFragment : protocol ≠ 44
  notEsp : protocol ≠ 50
  udp : protocol = 17 → UdpFits bytes ∧ ¬Dhcp6 bytes

/-- The payload of an IPv6 packet. -/
def payload6 (ip : Bytes) : Bytes := (ip.drop 40).take (word ip 4)

/-- A complete, unfragmented IPv6 packet to a multicast address that nobody depends on. -/
structure Drops6 (ip : Bytes) : Prop where
  length : 40 ≤ ip.length
  version : byte ip 0 / 16 = 6
  multicast : byte ip 24 = 255
  payload : word ip 4 ≠ 0
  complete : 40 + word ip 4 ≤ ip.length
  chain : ∃ headers ≤ 7, Chain Droppable headers (byte ip 6) (payload6 ip)

/-- **What a policy drops.** -/
structure Drops (policy : Byte) (frame : Bytes) : Prop where
  enabled : 4 ≤ policy.toNat ∧ policy.toNat ≤ 7
  group : byte frame 0 % 2 = 1
  packet : ∃ tags ≤ 2, ∃ type packet, Tagged tags (frame.drop 12) type packet ∧
    ((type = 0x0800 ∧ policy.toNat % 2 = 0 ∧ Drops4 packet) ∨
      (type = 0x86dd ∧ policy.toNat / 2 % 2 = 0 ∧ Drops6 packet))

/-! ### Texts -/

theorem from_bufferOf (bytes : Bytes) (n : Nat) :
    (bufferOf bytes).from n = bufferOf (bytes.drop n) := by
  funext i
  simp [Buffer.from, bufferOf]

theorem byte_drop (bytes : Bytes) (n i : Nat) : byte (bytes.drop n) i = byte bytes (n + i) := by
  simp [byte, bufferOf]

theorem byte_take {bytes : Bytes} {n i : Nat} (h : i < n) : byte (bytes.take n) i = byte bytes i := by
  simp [byte, bufferOf, h]

theorem word_drop (bytes : Bytes) (n i : Nat) : word (bytes.drop n) i = word bytes (n + i) := by
  simp only [word, readBe16, byte_drop, Nat.add_assoc]

theorem word_take {bytes : Bytes} {n i : Nat} (h : i + 1 < n) :
    word (bytes.take n) i = word bytes i := by
  simp only [word, readBe16, byte_take h, byte_take (Nat.lt_of_succ_lt h)]

theorem bufferOf_eq_iff {bytes : Bytes} {i : Nat} {value : Byte} :
    bufferOf bytes i = value ↔ byte bytes i = value.toNat := by
  rw [byte, BitVec.toNat_eq]

/-! ### IPv4 -/

variable {spared : Nat → Nat → Bool} {ip udp : Bytes}

variable (spared) in
/-- **UDP packets**, by their length and ports. -/
theorem udpPacket_eq_drop_iff {remaining : Nat} (h : remaining ≤ udp.length) :
    udpPacket (bufferOf udp) remaining spared = .drop ↔
      UdpFits (udp.take remaining) ∧
        spared (word (udp.take remaining) 0) (word (udp.take remaining) 2) = false := by
  have hlen : (udp.take remaining).length = remaining := List.length_take_of_le h
  unfold udpPacket
  by_cases hshort : remaining < 8
  · rw [if_pos hshort]
    refine ⟨nofun, fun hudp => ?_⟩
    have := hudp.1.header
    omega
  · have hword : ∀ i, i < 7 → word (udp.take remaining) i = word udp i :=
      fun i hi => word_take (by omega)
    rw [if_neg hshort]
    simp only [hword 0 (by omega), hword 2 (by omega)]
    by_cases hbad : word udp 4 < 8 ∨ word udp 4 > remaining
    · rw [if_pos hbad]
      refine ⟨nofun, fun hudp => ?_⟩
      have hleast := hudp.1.least
      have hmost := hudp.1.most
      rw [hword 4 (by omega)] at hleast hmost
      omega
    · have hfits : UdpFits (udp.take remaining) := ⟨by omega, by rw [hword 4 (by omega)]; omega,
        by rw [hword 4 (by omega)]; omega⟩
      rw [if_neg hbad]
      cases hspared : spared (word udp 0) (word udp 2) with
      | true => simp
      | false => simp [hfits]

/-- **IPv4 packets.** -/
theorem ipv4Packet_eq_drop_iff (ip : Bytes) :
    ipv4Packet (bufferOf ip) ip.length = .drop ↔ Drops4 ip := by
  unfold ipv4Packet
  simp only [bufferOf_eq_iff]
  -- Not a multicast packet of this version: both sides let it through.
  by_cases hfirst : ip.length < 20 ∨ byte ip 0 / 16 ≠ 4 ∨ byte ip 0 % 16 < 5 ∨ byte ip 16 / 16 ≠ 14
  · rw [if_pos hfirst]
    refine ⟨nofun, fun h => ?_⟩
    have hlength := h.length
    have hversion := h.version
    have hheader := h.header
    have hgroup := h.multicast
    rw [header4] at hheader
    omega
  rw [if_neg hfirst]
  change (if header4 ip > ip.length ∨ word ip 2 < header4 ip ∨ word ip 2 > ip.length ∨
    word ip 6 % 0x4000 ≠ 0 ∨ byte ip 9 = 2 then Verdict.inherit
    else if byte ip 9 = 17 then _ else Verdict.drop) = .drop ↔ _
  -- Incomplete, a fragment or IGMP: likewise.
  by_cases hrest : header4 ip > ip.length ∨ word ip 2 < header4 ip ∨ word ip 2 > ip.length ∨
      word ip 6 % 0x4000 ≠ 0 ∨ byte ip 9 = 2
  · rw [if_pos hrest]
    refine ⟨nofun, fun h => ?_⟩
    have htotal := h.total
    have hcomplete := h.complete
    have hfragment := h.unfragmented
    have higmp := h.notIgmp
    omega
  -- What has been excluded so far is all that is asked of a packet but its ports.
  have hdrops : (byte ip 9 = 17 → UdpFits (payload4 ip) ∧ ¬Dhcp (payload4 ip)) → Drops4 ip :=
    fun hudp => ⟨by omega, by omega, by rw [header4]; omega, by omega, by omega, by omega, by omega,
      by omega, hudp⟩
  rw [if_neg hrest]
  -- For UDP the ports decide.
  by_cases hudp : byte ip 9 = 17
  · have hsize : word ip 2 - header4 ip ≤ (ip.drop (header4 ip)).length := by
      rw [List.length_drop]
      omega
    have hiff := udpPacket_eq_drop_iff (fun source destination =>
      (source = 67 ∧ destination = 68) ∨ (source = 68 ∧ destination = 67)) hsize
    have hports : UdpFits (payload4 ip) ∧ ¬Dhcp (payload4 ip) ↔ Drops4 ip :=
      ⟨fun h => hdrops fun _ => h, fun h => h.udp hudp⟩
    rw [if_pos hudp, ← hports, from_bufferOf]
    refine Iff.trans hiff (and_congr_right fun _ => ?_)
    simp [Dhcp, payload4]
  · simp [hudp, hdrops]

/-! ### IPv6 -/

/-- **The loop over the extension headers**, with the turns that are left. -/
theorem ipv6Headers_eq_drop_iff (turns : Nat) (protocol : Byte) {next : Bytes} {remaining : Nat}
    (h : remaining ≤ next.length) :
    ipv6Headers turns protocol (bufferOf next) remaining = .drop ↔
      ∃ headers < turns, Chain Droppable headers protocol.toNat (next.take remaining) := by
  induction turns generalizing protocol next remaining with
  | zero => simp [ipv6Headers]
  | succ turns ih =>
      have hlen : (next.take remaining).length = remaining := List.length_take_of_le h
      unfold ipv6Headers
      have hvalue : ∀ n : Byte, protocol = n ↔ protocol.toNat = n.toNat := fun n => BitVec.toNat_eq
      have hextension : isExtension protocol = true ↔ IsExtension protocol.toNat := by
        simp [isExtension, IsExtension, hvalue]
      by_cases hkept : protocol = 58 ∨ protocol = 44 ∨ protocol = 50
      · rw [if_pos hkept]
        refine ⟨nofun, ?_⟩
        rintro ⟨headers, -, hchain⟩
        have hnot : ¬IsExtension protocol.toNat := by
          rcases hkept with rfl | rfl | rfl <;> simp [IsExtension]
        cases hchain with
        | last _ hlast =>
            obtain ⟨hicmp, hfragment, hesp, -⟩ := hlast
            rcases hkept with rfl | rfl | rfl
            · exact absurd rfl hicmp
            · exact absurd rfl hfragment
            · exact absurd rfl hesp
        | header hext => exact absurd hext hnot
      rw [if_neg hkept]
      cases hext : isExtension protocol with
      | true =>
          have hIs := hextension.mp hext
          rw [if_pos rfl]
          by_cases hshort : remaining < 2
          · rw [if_pos hshort]
            refine ⟨nofun, ?_⟩
            rintro ⟨headers, -, hchain⟩
            cases hchain with
            | last hnot => exact absurd hIs hnot
            | header _ hlength => omega
          rw [if_neg hshort]
          have hsize : (if protocol = 51 then ((bufferOf next 1).toNat + 2) * 4
              else ((bufferOf next 1).toNat + 1) * 8) =
              extensionSize protocol.toNat (next.take remaining) := by
            rw [extensionSize, byte_take (by omega)]
            simp [hvalue]
          rw [hsize]
          generalize hsizeEq : extensionSize protocol.toNat (next.take remaining) = size
          by_cases hlong : size > remaining
          · simp only [if_pos hlong]
            refine ⟨nofun, ?_⟩
            rintro ⟨headers, -, hchain⟩
            cases hchain with
            | last hnot => exact absurd hIs hnot
            | header _ _ hfits => omega
          simp only [if_neg hlong]
          have hrest : remaining - size ≤ (next.drop size).length := by
            rw [List.length_drop]
            omega
          rw [from_bufferOf, ih (bufferOf next 0) hrest]
          -- the rest of the chain is the chain of the rest
          have htail : (next.take remaining).drop size = (next.drop size).take (remaining - size) :=
            List.drop_take
          have hproto : byte (next.take remaining) 0 = (bufferOf next 0).toNat :=
            byte_take (by omega)
          constructor
          · rintro ⟨headers, hlt, hchain⟩
            refine ⟨headers + 1, by omega, .header hIs (by omega) (by omega) ?_⟩
            rw [hsizeEq, htail, hproto]
            exact hchain
          · rintro ⟨headers, hlt, hchain⟩
            cases hchain with
            | last hnot => exact absurd hIs hnot
            | header _ _ _ hchain =>
                rw [hsizeEq, htail, hproto] at hchain
                exact ⟨_, by omega, hchain⟩
      | false =>
          have hnot : ¬IsExtension protocol.toNat := by rw [← hextension, hext]; simp
          have hlast : (∃ headers < turns + 1,
              Chain Droppable headers protocol.toNat (next.take remaining)) ↔
                (protocol.toNat = 17 →
                  UdpFits (next.take remaining) ∧ ¬Dhcp6 (next.take remaining)) := by
            constructor
            · rintro ⟨headers, -, hchain⟩
              cases hchain with
              | last _ hlast => exact hlast.udp
              | header hext => exact absurd hext hnot
            · intro hudp
              simp only [hvalue] at hkept
              refine ⟨0, by omega, .last hnot ⟨?_, ?_, ?_, hudp⟩⟩
              · exact fun heq => hkept (.inl heq)
              · exact fun heq => hkept (.inr (.inl heq))
              · exact fun heq => hkept (.inr (.inr heq))
          rw [hlast, if_neg (by simp)]
          by_cases hudp : protocol = 17
          · have hnumber : protocol.toNat = 17 := by rw [hudp]; rfl
            have hiff := udpPacket_eq_drop_iff (fun source destination =>
              (source = 547 ∧ destination = 546) ∨ (source = 546 ∧ destination = 547) ∨
                (source = 547 ∧ destination = 547)) h
            rw [if_pos hudp, hiff]
            simp [Dhcp6, hnumber]
          · have hnumber : protocol.toNat ≠ 17 := fun heq => hudp ((hvalue 17).mpr heq)
            rw [if_neg hudp]
            simp [hnumber]

/-- **IPv6 packets.** -/
theorem ipv6Packet_eq_drop_iff (ip : Bytes) :
    ipv6Packet (bufferOf ip) ip.length = .drop ↔ Drops6 ip := by
  unfold ipv6Packet
  simp only [ne_eq, bufferOf_eq_iff]
  have hgroup : (255 : Byte).toNat = 255 := rfl
  rw [hgroup]
  by_cases hfirst : ip.length < 40 ∨ ¬byte ip 0 / 16 = 6 ∨ ¬byte ip 24 = 255
  · rw [if_pos hfirst]
    refine ⟨nofun, fun h => ?_⟩
    have hlength := h.length
    have hversion := h.version
    have hmulticast := h.multicast
    omega
  rw [if_neg hfirst]
  by_cases hpayload : word ip 4 = 0 ∨ word ip 4 > ip.length - 40
  · simp only [if_pos hpayload]
    refine ⟨nofun, fun h => ?_⟩
    have hsome := h.payload
    have hcomplete := h.complete
    omega
  simp only [if_neg hpayload]
  have hsize : word ip 4 ≤ (ip.drop 40).length := by
    rw [List.length_drop]
    omega
  rw [from_bufferOf, ipv6Headers_eq_drop_iff 8 (bufferOf ip 6) hsize]
  constructor
  · rintro ⟨headers, hlt, hchain⟩
    exact ⟨by omega, by omega, by omega, by omega, by omega, headers, by omega, hchain⟩
  · intro h
    obtain ⟨headers, hle, hchain⟩ := h.chain
    exact ⟨headers, by omega, hchain⟩

/-! ### Frames -/

/-- A text is read in one way. -/
theorem Tagged.unique {tags tags' : Nat} {bytes packet packet' : Bytes} {type type' : Nat}
    (h : Tagged tags bytes type packet) (h' : Tagged tags' bytes type' packet') :
    tags = tags' ∧ type = type' ∧ packet = packet' := by
  induction h generalizing tags' with
  | plain _ hplain =>
      cases h' with
      | plain => exact ⟨rfl, rfl, rfl⟩
      | tag _ htag => exact absurd htag hplain
  | tag _ htag _ ih =>
      cases h' with
      | plain _ hplain => exact absurd htag hplain
      | tag _ _ hrest =>
          obtain ⟨rfl, rfl, rfl⟩ := ih hrest
          exact ⟨rfl, rfl, rfl⟩

instance (type : Nat) : Decidable (IsTag type) := inferInstanceAs (Decidable (_ ∨ _))

/-- **The loop over the tags**, with the turns that are left: it stops behind the type of the frame,
or at one tag too many, or where the frame is cut off. -/
theorem skipTags_spec (frame : Bytes) (turns start : Nat) (hstart : start + 2 ≤ frame.length) :
    match skipTags (bufferOf frame) frame.length turns (word frame start) (start + 2) with
    | none => ∀ tags type packet, ¬Tagged tags (frame.drop start) type packet
    | some (protocol, header) => header ≤ frame.length ∧
        ((∃ tags ≤ turns, Tagged tags (frame.drop start) protocol (frame.drop header)) ∨
          IsTag protocol ∧ ∀ tags ≤ turns, ∀ type packet, ¬Tagged tags (frame.drop start) type packet)
    := by
  have hword : word (frame.drop start) 0 = word frame start := by rw [word_drop, Nat.add_zero]
  have hlen : (frame.drop start).length = frame.length - start := List.length_drop
  have hplain : ¬IsTag (word frame start) →
      Tagged 0 (frame.drop start) (word frame start) (frame.drop (start + 2)) := by
    intro hnot
    have h := @Tagged.plain (frame.drop start) (by omega) (by rwa [hword])
    rwa [hword, List.drop_drop] at h
  induction turns generalizing start with
  | zero =>
      refine ⟨hstart, ?_⟩
      by_cases htag : IsTag (word frame start)
      · refine .inr ⟨htag, fun tags hle type packet h => ?_⟩
        cases h with
        | plain _ hnot => exact hnot (by rwa [hword])
        | tag => omega
      · exact .inl ⟨0, Nat.le_refl _, hplain htag⟩
  | succ turns ih =>
      unfold skipTags
      by_cases htag : IsTag (word frame start)
      · have hcond : ¬(word frame start ≠ 0x8100 ∧ word frame start ≠ 0x88a8) := by
          rcases htag with htag | htag <;> simp [htag]
        rw [if_neg hcond]
        by_cases hshort : frame.length - (start + 2) < 4
        · -- the tag has no type behind it
          rw [if_pos hshort]
          intro tags type packet h
          cases h with
          | plain _ hnot => exact hnot (by rwa [hword])
          | tag _ _ hrest =>
              have hrestLen : 2 ≤ ((frame.drop start).drop 4).length := by
                cases hrest with
                | plain hlength => exact hlength
                | tag hlength => omega
              rw [List.length_drop] at hrestLen
              omega
        · rw [if_neg hshort]
          have hdrop : (frame.drop start).drop 4 = frame.drop (start + 4) := List.drop_drop
          have hnext := ih (start + 4) (by omega) (by rw [word_drop, Nat.add_zero]) List.length_drop
            (by
              intro hnot
              have h := @Tagged.plain (frame.drop (start + 4))
                (by rw [List.length_drop]; omega) (by rwa [word_drop, Nat.add_zero])
              rwa [word_drop, Nat.add_zero, List.drop_drop] at h)
          -- every reading of the text starts with the tag
          have hinv : ∀ tags type packet, Tagged tags (frame.drop start) type packet →
              ∃ rest, tags = rest + 1 ∧ Tagged rest (frame.drop (start + 4)) type packet := by
            intro tags type packet h
            cases h with
            | plain _ hnot => exact absurd (by rwa [hword]) hnot
            | tag _ _ hrest => exact ⟨_, rfl, by rwa [hdrop] at hrest⟩
          change match skipTags (bufferOf frame) frame.length turns (word frame (start + 4))
            (start + 4 + 2) with | none => _ | some (protocol, header) => _
          cases hskip : skipTags (bufferOf frame) frame.length turns (word frame (start + 4))
              (start + 4 + 2) with
          | none =>
              rw [hskip] at hnext
              intro tags type packet h
              obtain ⟨rest, -, hrest⟩ := hinv tags type packet h
              exact hnext rest type packet hrest
          | some result =>
              rw [hskip] at hnext
              obtain ⟨hle, ⟨tags, htags, hrest⟩ | ⟨hprotocol, hnone⟩⟩ := hnext
              · refine ⟨hle, .inl ⟨tags + 1, by omega, .tag (by omega) (by rwa [hword]) ?_⟩⟩
                rwa [hdrop]
              · refine ⟨hle, .inr ⟨hprotocol, fun tags htags type packet h => ?_⟩⟩
                obtain ⟨rest, rfl, hrest⟩ := hinv tags type packet h
                exact hnone rest (by omega) type packet hrest
      · have hcond : word frame start ≠ 0x8100 ∧ word frame start ≠ 0x88a8 :=
          ⟨fun h => htag (.inl h), fun h => htag (.inr h)⟩
        rw [if_pos hcond]
        exact ⟨hstart, .inl ⟨0, by omega, hplain htag⟩⟩

/-- The bits of a policy. -/
theorem policy_bits : ∀ policy : Byte,
    ((policy &&& 0xf8 = 0 ∧ enabled policy = true) ↔ 4 ≤ policy.toNat ∧ policy.toNat ≤ 7) ∧
      (allowsIpv4 policy = false ↔ policy.toNat % 2 = 0) ∧
      (allowsIpv6 policy = false ↔ policy.toNat / 2 % 2 = 0) ∧
      (policy &&& 1 ≠ 0 ↔ policy.toNat % 2 = 1) := by
  decide +kernel

/-- **The filter drops exactly what a policy drops.** -/
theorem rxfilterPacket_eq_drop_iff (policy : Byte) (frame : Bytes) :
    rxfilterPacket policy (some (bufferOf frame)) frame.length = .drop ↔ Drops policy frame := by
  obtain ⟨henabled, hipv4, hipv6, -⟩ := policy_bits policy
  obtain ⟨-, -, -, hgroup⟩ := policy_bits (bufferOf frame 0)
  unfold rxfilterPacket
  -- a policy of the grammar passes the guard
  by_cases hguard : policy &&& 0xf8 ≠ 0 ∨ ¬enabled policy = true ∨ frame.length < 14 ∨
      bufferOf frame 0 &&& 1 = 0
  · simp only [if_pos hguard]
    refine ⟨nofun, fun h => ?_⟩
    have hbits := henabled.mpr h.enabled
    have hodd := hgroup.mpr h.group
    obtain ⟨tags, -, type, packet, htagged, -⟩ := h.packet
    have hlength : 2 ≤ (frame.drop 12).length := by
      cases htagged with
      | plain hlength => exact hlength
      | tag hlength => omega
    rw [List.length_drop] at hlength
    rcases hguard with hbad | hbad | hbad | hbad
    · exact absurd hbits.1 hbad
    · exact absurd hbits.2 hbad
    · omega
    · exact absurd hbad hodd
  simp only [if_neg hguard]
  simp only [not_or, Decidable.not_not, Nat.not_lt] at hguard
  obtain ⟨hhigh, hon, hlength, hodd⟩ := hguard
  have hframe : (∃ tags ≤ 2, ∃ type packet, Tagged tags (frame.drop 12) type packet ∧
      ((type = 0x0800 ∧ policy.toNat % 2 = 0 ∧ Drops4 packet) ∨
        (type = 0x86dd ∧ policy.toNat / 2 % 2 = 0 ∧ Drops6 packet))) ↔ Drops policy frame :=
    ⟨fun h => ⟨henabled.mp ⟨hhigh, hon⟩, hgroup.mp hodd, h⟩, fun h => h.packet⟩
  rw [← hframe]
  -- what is behind the tags is decided by the type there
  have hskip := skipTags_spec frame 2 12 (by omega)
  change (match skipTags (bufferOf frame) frame.length 2 (word frame 12) (12 + 2) with
    -- a tag is cut off, and the grammar has no such frame
    | none => Verdict.inherit
    | some (protocol, header) => _) = .drop ↔ _
  cases hresult : skipTags (bufferOf frame) frame.length 2 (word frame 12) (12 + 2) with
  | none =>
      rw [hresult] at hskip
      refine ⟨nofun, ?_⟩
      rintro ⟨tags, -, type, packet, htagged, -⟩
      exact (hskip tags type packet htagged).elim
  | some result =>
      obtain ⟨protocol, header⟩ := result
      rw [hresult] at hskip
      obtain ⟨hle, ⟨tags, htags, htagged⟩ | ⟨htag, hnone⟩⟩ := hskip
      · have hrest : frame.length - header = (frame.drop header).length := List.length_drop.symm
        -- the tags are read in one way only
        have honly : (∃ tags ≤ 2, ∃ type packet, Tagged tags (frame.drop 12) type packet ∧
            ((type = 0x0800 ∧ policy.toNat % 2 = 0 ∧ Drops4 packet) ∨
              (type = 0x86dd ∧ policy.toNat / 2 % 2 = 0 ∧ Drops6 packet))) ↔
            (protocol = 0x0800 ∧ policy.toNat % 2 = 0 ∧ Drops4 (frame.drop header)) ∨
              (protocol = 0x86dd ∧ policy.toNat / 2 % 2 = 0 ∧ Drops6 (frame.drop header)) := by
          constructor
          · rintro ⟨tags', -, type, packet, htagged', hdrops⟩
            obtain ⟨-, rfl, rfl⟩ := htagged.unique htagged'
            exact hdrops
          · exact fun hdrops => ⟨tags, htags, _, _, htagged, hdrops⟩
        dsimp only
        rw [honly, from_bufferOf, hrest, ← hipv4, ← hipv6]
        -- the packet of the family that is not allowed decides
        by_cases hfour : protocol = 0x0800 ∧ ¬allowsIpv4 policy = true
        · rw [if_pos hfour, ipv4Packet_eq_drop_iff]
          obtain ⟨rfl, hallow⟩ := hfour
          simp only [Bool.not_eq_true] at hallow
          simp [hallow]
        · rw [if_neg hfour]
          by_cases hsix : protocol = 0x86dd ∧ ¬allowsIpv6 policy = true
          · rw [if_pos hsix, ipv6Packet_eq_drop_iff]
            obtain ⟨rfl, hallow⟩ := hsix
            simp only [Bool.not_eq_true] at hallow
            simp [hallow]
          · rw [if_neg hsix]
            simp only [Bool.not_eq_true] at hfour hsix
            refine ⟨nofun, ?_⟩
            rintro (⟨htype, hallow, -⟩ | ⟨htype, hallow, -⟩)
            · exact absurd ⟨htype, hallow⟩ hfour
            · exact absurd ⟨htype, hallow⟩ hsix
      · dsimp only
        -- a third tag is no type of a packet
        have hother : protocol ≠ 0x0800 ∧ protocol ≠ 0x86dd := by
          rcases htag with rfl | rfl <;> simp
        rw [if_neg (fun h => hother.1 h.1), if_neg (fun h => hother.2 h.1)]
        refine ⟨nofun, ?_⟩
        rintro ⟨tags, hle, type, packet, htagged, -⟩
        exact (hnone tags hle type packet htagged).elim

/-! ### What is kept -/

/-- The length that a packet announces. -/
def announced (type : Nat) (packet : Bytes) : Nat :=
  if type = 0x0800 then word packet 2 else 40 + word packet 4

/-- What a chain of extension headers must not hide: ICMPv6, a fragment, ESP, DHCPv6. -/
def Protected (protocol : Nat) (bytes : Bytes) : Prop :=
  protocol = 58 ∨ protocol = 44 ∨ protocol = 50 ∨ protocol = 17 ∧ Dhcp6 bytes

/-- Packets that no policy drops. -/
inductive Kept : Nat → Bytes → Prop
  /-- Any other type than IP: ARP (`0x0806`), EAPOL (`0x888e`). -/
  | other {type packet} (four : type ≠ 0x0800) (six : type ≠ 0x86dd) : Kept type packet
  | igmp {packet} (protocol : byte packet 9 = 2) : Kept 0x0800 packet
  | fragment {packet} (offset : word packet 6 % 0x4000 ≠ 0) : Kept 0x0800 packet
  | dhcp {packet} (protocol : byte packet 9 = 17) (ports : Dhcp (payload4 packet)) :
      Kept 0x0800 packet
  | chain {packet} (headers : Nat) (chain : Chain Protected headers (byte packet 6) (payload6 packet)) :
      Kept 0x86dd packet
  | cut {type packet} (short : packet.length < announced type packet) : Kept type packet

/-- A chain is read in one way. -/
theorem Chain.unique {First Second : Nat → Bytes → Prop} {headers headers' protocol : Nat}
    {bytes : Bytes} (h : Chain First headers protocol bytes)
    (h' : Chain Second headers' protocol bytes) :
    ∃ protocol bytes, First protocol bytes ∧ Second protocol bytes := by
  induction h generalizing headers' with
  | last hother hlast =>
      cases h' with
      | last _ hlast' => exact ⟨_, _, hlast, hlast'⟩
      | header hextension => exact absurd hextension hother
  | header hextension _ _ _ ih =>
      cases h' with
      | last hother => exact absurd hextension hother
      | header _ _ _ hrest => exact ih hrest

/-- What is kept is not dropped. -/
theorem Kept.not_drops {type : Nat} {packet : Bytes} (h : Kept type packet) :
    (type = 0x0800 → ¬Drops4 packet) ∧ (type = 0x86dd → ¬Drops6 packet) := by
  cases h with
  | other hfour hsix => exact ⟨fun h => absurd h hfour, fun h => absurd h hsix⟩
  | igmp hprotocol => exact ⟨fun _ h => h.notIgmp hprotocol, nofun⟩
  | fragment hoffset => exact ⟨fun _ h => hoffset h.unfragmented, nofun⟩
  | dhcp hprotocol hports => exact ⟨fun _ h => (h.udp hprotocol).2 hports, nofun⟩
  | chain headers hchain =>
      refine ⟨nofun, fun _ h => ?_⟩
      obtain ⟨headers', -, hdroppable⟩ := h.chain
      obtain ⟨protocol, bytes, hprotected, hlast⟩ := hchain.unique hdroppable
      rcases hprotected with rfl | rfl | rfl | ⟨rfl, hports⟩
      · exact hlast.notIcmp rfl
      · exact hlast.notFragment rfl
      · exact hlast.notEsp rfl
      · exact (hlast.udp rfl).2 hports
  | cut hshort =>
      refine ⟨?_, ?_⟩
      · rintro rfl h
        have hcomplete := h.complete
        rw [announced, if_pos rfl] at hshort
        omega
      · rintro rfl h
        have hcomplete := h.complete
        rw [announced, if_neg (by decide)] at hshort
        omega

/-- **What is kept is kept behind any tags.** -/
theorem rxfilterPacket_kept (policy : Byte) {frame packet : Bytes} {tags type : Nat}
    (htagged : Tagged tags (frame.drop 12) type packet) (hkept : Kept type packet) :
    ¬Drops policy frame := by
  intro h
  obtain ⟨tags', -, type', packet', htagged', hdrops⟩ := h.packet
  obtain ⟨-, rfl, rfl⟩ := htagged.unique htagged'
  obtain ⟨hfour, hsix⟩ := hkept.not_drops
  rcases hdrops with ⟨htype, -, hdrops⟩ | ⟨htype, -, hdrops⟩
  · exact hfour htype hdrops
  · exact hsix htype hdrops

/-! ### Frames that are cut short -/

theorem byte_append {bytes : Bytes} (more : Bytes) {i : Nat} (h : i < bytes.length) :
    byte (bytes ++ more) i = byte bytes i := by
  simp only [byte, bufferOf]
  rw [List.getD_append _ _ _ _ h]

theorem word_append {bytes : Bytes} (more : Bytes) {i : Nat} (h : i + 1 < bytes.length) :
    word (bytes ++ more) i = word bytes i := by
  have hhigh : (bufferOf (bytes ++ more) i).toNat = (bufferOf bytes i).toNat :=
    byte_append more (Nat.lt_of_succ_lt h)
  have hlow : (bufferOf (bytes ++ more) (i + 1)).toNat = (bufferOf bytes (i + 1)).toNat :=
    byte_append more h
  simp only [word, readBe16, hhigh, hlow]

theorem Tagged.length {tags type : Nat} {bytes packet : Bytes} (h : Tagged tags bytes type packet) :
    bytes.length = 4 * tags + 2 + packet.length := by
  induction h with
  | plain hlength =>
      rw [List.length_drop]
      omega
  | tag hlength _ _ ih =>
      rw [List.length_drop] at ih
      omega

/-- A longer text is read alike. -/
theorem Tagged.append {tags type : Nat} {bytes packet : Bytes} (h : Tagged tags bytes type packet)
    (more : Bytes) : Tagged tags (bytes ++ more) type (packet ++ more) := by
  induction h with
  | @plain bytes hlength hplain =>
      have hword := word_append more (i := 0) hlength
      have hlonger : 2 ≤ (bytes ++ more).length := by
        rw [List.length_append]
        omega
      have hfull := Tagged.plain hlonger (by rwa [hword])
      rwa [hword, List.drop_append_of_le_length hlength] at hfull
  | tag hlength htag _ ih =>
      refine .tag (by rw [List.length_append]; omega) ?_ ?_
      · rwa [word_append more (by omega)]
      · rwa [List.drop_append_of_le_length hlength]

/-- **A frame that is cut off before its packet is complete is kept.** -/
theorem rxfilterPacket_cut (policy : Byte) {whole packet : Bytes} {tags type size : Nat}
    (htagged : Tagged tags (whole.drop 12) type packet)
    (hsize : size < 12 + 4 * tags + 2 + announced type packet) :
    ¬Drops policy (whole.take size) := by
  intro h
  obtain ⟨tags', -, type', packet', htagged', hdrops⟩ := h.packet
  have hlength := htagged'.length
  have hlong : 12 ≤ size := by
    rw [List.length_drop, List.length_take] at hlength
    omega
  -- what is left of the packet is its front
  have hsplit : whole.drop 12 = (whole.take size).drop 12 ++ whole.drop size := by
    have hwhole := congrArg (List.drop 12) (List.take_append_drop size whole)
    rw [List.drop_append] at hwhole
    rw [← hwhole, List.length_take]
    congr 1
    rw [List.drop_drop]
    by_cases hle : size ≤ whole.length
    · congr 1
      omega
    · rw [List.drop_eq_nil_of_le (by omega), List.drop_eq_nil_of_le (by omega)]
  rw [hsplit] at htagged
  obtain ⟨rfl, rfl, rfl⟩ := htagged.unique (htagged'.append (whole.drop size))
  have hsame : announced type (packet' ++ whole.drop size) ≤ packet'.length := by
    rcases hdrops with ⟨rfl, -, hdrops⟩ | ⟨rfl, -, hdrops⟩
    · have hlen := hdrops.length
      rw [announced, if_pos rfl, word_append _ (by omega)]
      exact hdrops.complete
    · have hlen := hdrops.length
      rw [announced, if_neg (by decide), word_append _ (by omega)]
      exact hdrops.complete
  rw [List.length_drop, List.length_take] at hlength
  omega

end RxDrops

end Mindone.Wifi
