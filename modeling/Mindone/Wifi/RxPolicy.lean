import Mathlib.Data.BitVec

/-!
# Mindone.Wifi.RxPolicy

The extended receive policy (`tools/wifi/rxfilter-policy.c`, `rxfilter-query.c`): which frames a
policy byte drops, and how a policy is read from the two control bytes of a BSS. A buffer is what
is read at each offset; lengths are natural numbers, since each subtraction is guarded.
-/

namespace Mindone.Wifi

abbrev Byte := BitVec 8

/-- What a `const uint8_t*` points to. -/
abbrev Buffer := Nat → Byte

/-- `bytes + n` -/
def Buffer.from (bytes : Buffer) (n : Nat) : Buffer := fun i => bytes (n + i)

/-- `rxfilter_verdict` -/
inductive Verdict
  | inherit
  | drop
  deriving DecidableEq

def readBe16 (bytes : Buffer) (i : Nat) : Nat := (bytes i).toNat * 256 + (bytes (i + 1)).toNat

def readLe16 (bytes : Buffer) (i : Nat) : BitVec 16 := bytes (i + 1) ++ bytes i

def readLe32 (bytes : Buffer) (i : Nat) : BitVec 32 :=
  (readLe16 bytes (i + 2) ++ readLe16 bytes i)

/-! ### Frames -/

/-- The check of a UDP header in `remaining` bytes: `spared` are the ports of the address
configuration. -/
def udpPacket (udp : Buffer) (remaining : Nat) (spared : Nat → Nat → Bool) : Verdict :=
  if remaining < 8 then .inherit
  else
    let udpSize := readBe16 udp 4
    if udpSize < 8 ∨ udpSize > remaining then .inherit
    else if spared (readBe16 udp 0) (readBe16 udp 2) then .inherit
    else .drop

/-- `ipv4_packet` -/
def ipv4Packet (ip : Buffer) (length : Nat) : Verdict :=
  if length < 20 ∨ (ip 0).toNat / 16 ≠ 4 ∨ (ip 0).toNat % 16 < 5 ∨ (ip 16).toNat / 16 ≠ 14 then
    .inherit
  else
    let header := (ip 0).toNat % 16 * 4
    let total := readBe16 ip 2
    if header > length ∨ total < header ∨ total > length ∨ readBe16 ip 6 % 0x4000 ≠ 0 ∨ ip 9 = 2 then
      .inherit
    else if ip 9 = 17 then
      udpPacket (ip.from header) (total - header) fun source destination =>
        (source = 67 ∧ destination = 68) ∨ (source = 68 ∧ destination = 67)
    else .drop

/-- The headers that are skipped. -/
def isExtension (protocol : Byte) : Bool :=
  protocol = 0 ∨ protocol = 43 ∨ protocol = 60 ∨ protocol = 51

/-- The loop of `ipv6_packet`, with the turns that are left. -/
def ipv6Headers : Nat → Byte → Buffer → Nat → Verdict
  | 0, _, _, _ => .inherit
  | turns + 1, protocol, next, remaining =>
      if protocol = 58 ∨ protocol = 44 ∨ protocol = 50 then .inherit
      else if isExtension protocol then
        if remaining < 2 then .inherit
        else
          let header := if protocol = 51 then ((next 1).toNat + 2) * 4 else ((next 1).toNat + 1) * 8
          if header > remaining then .inherit
          else ipv6Headers turns (next 0) (next.from header) (remaining - header)
      else if protocol = 17 then
        udpPacket next remaining fun source destination =>
          (source = 547 ∧ destination = 546) ∨ (source = 546 ∧ destination = 547) ∨
            (source = 547 ∧ destination = 547)
      else .drop

/-- `ipv6_packet` -/
def ipv6Packet (ip : Buffer) (length : Nat) : Verdict :=
  if length < 40 ∨ (ip 0).toNat / 16 ≠ 6 ∨ ip 24 ≠ 255 then .inherit
  else
    let payload := readBe16 ip 4
    if payload = 0 ∨ payload > length - 40 then .inherit
    else ipv6Headers 8 (ip 6) (ip.from 40) payload

/-- The loop over the VLAN tags: the protocol behind them and where its header starts. -/
def skipTags (frame : Buffer) (length : Nat) : Nat → Nat → Nat → Option (Nat × Nat)
  | 0, protocol, header => some (protocol, header)
  | tags + 1, protocol, header =>
      if protocol ≠ 0x8100 ∧ protocol ≠ 0x88a8 then some (protocol, header)
      else if length - header < 4 then none
      else skipTags frame length tags (readBe16 frame (header + 2)) (header + 4)

/-- `RXFILTER_ALLOW_IPV4`, `RXFILTER_ALLOW_IPV6`, `RXFILTER_ENABLED` -/
def allowsIpv4 (policy : Byte) : Bool := policy &&& 1 ≠ 0
def allowsIpv6 (policy : Byte) : Bool := policy &&& 2 ≠ 0
def enabled (policy : Byte) : Bool := policy &&& 4 ≠ 0

/-- `rxfilter_packet` -/
def rxfilterPacket (policy : Byte) (frame : Option Buffer) (length : Nat) : Verdict :=
  match frame with
  | none => .inherit
  | some frame =>
      if policy &&& 0xf8 ≠ 0 ∨ ¬ enabled policy ∨ length < 14 ∨ frame 0 &&& 1 = 0 then .inherit
      else
        match skipTags frame length 2 (readBe16 frame 12) 14 with
        | none => .inherit
        | some (protocol, header) =>
            if protocol = 0x0800 ∧ ¬ allowsIpv4 policy then
              ipv4Packet (frame.from header) (length - header)
            else if protocol = 0x86dd ∧ ¬ allowsIpv6 policy then
              ipv6Packet (frame.from header) (length - header)
            else .inherit

/-- `rxfilter_soc2_packet` -/
def rxfilterSoc2Packet (policies : Option (Nat → Byte)) (descriptor : Option Buffer)
    (descriptorSize : Nat) (raw : Option Buffer) (rawSize : Nat) (rawAddress : BitVec 32) : Verdict :=
  match policies, descriptor, raw with
  | some policies, some descriptor, some raw =>
      if descriptorSize < 0x6a ∨ descriptor 0x28 ≠ 2 ∨ descriptor 0x48 ≠ 1 ∨ descriptor 0x49 ≠ 0 ∨
          descriptor 0x69 ≥ 4 ∨ readLe32 descriptor 0x24 ≠ rawAddress then
        .inherit
      else
        let total := (readLe16 descriptor 0x2a).toNat
        let layer2 := readLe32 descriptor 0x2c
        let layer3 := readLe32 descriptor 0x30
        if total > rawSize ∨ total > 0xffffffff - rawAddress.toNat ∨ layer2 < rawAddress ∨
            layer3 < layer2 then
          .inherit
        else
          let offset2 := (layer2 - rawAddress).toNat
          let offset3 := (layer3 - rawAddress).toNat
          if offset2 > total ∨ offset3 > total ∨ offset3 - offset2 < 14 ∨
              total - offset3 ≠ (readLe16 descriptor 0x34).toNat then
            .inherit
          else
            rxfilterPacket (policies (descriptor 0x69).toNat) (some (raw.from offset2))
              (total - offset2)
  | _, _, _ => .inherit

/-! ### Control bytes -/

/-- `RXFILTER_QUERY_STATUS_INVALID` -/
def statusInvalid : Byte := 0xfc

/-- `rxfilter_query_control_status` -/
def rxfilterQueryControlStatus (awake asleep bss : Byte) : Byte :=
  if awake = asleep ∧ awake &&& 0xcf = 0x83 then
    0xa0 ||| (bss <<< 3) ||| ((awake >>> 4) - 4)
  else if (awake &&& 15) - 1 > 2 ∨ (asleep &&& 15) - 1 > 2 ∨ (awake >>> 4) - 1 > 4 ∨
      (asleep >>> 4) - 1 > 4 then
    statusInvalid
  else 0xa0 ||| (bss <<< 3)

/-- The policy that a status stands for. -/
def statusPolicy (status : Byte) : Byte := if status = statusInvalid then 0 else status &&& 7

end Mindone.Wifi
