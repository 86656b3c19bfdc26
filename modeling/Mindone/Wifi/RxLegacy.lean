import Mindone.Wifi.RxPolicy

/-!
# Mindone.Wifi.RxLegacy

The vendor's receive filter as rewritten in `tools/wifi/rxfilter-legacy.c`. It runs in the firmware,
so that everything it looks at is in one memory: descriptor, station, BSS, address lists and masks.
The vendor's own helpers are parameters; they see the memory.
-/

namespace Mindone.Wifi

/-! ### Memory -/

abbrev Address := BitVec 32

/-- The memory of the firmware. -/
abbrev Memory := Address → Byte

namespace Memory

variable (m : Memory)

def load16 (p : Address) : BitVec 16 := m (p + 1) ++ m p

def load32 (p : Address) : BitVec 32 := m.load16 (p + 2) ++ m.load16 p

/-- `network16` -/
def network16 (p : Address) : Nat := (m p).toNat * 256 + (m (p + 1)).toNat

def store32 (p : Address) (value : BitVec 32) : Memory := fun q =>
  if q = p then value.setWidth 8
  else if q = p + 1 then (value >>> 8).setWidth 8
  else if q = p + 2 then (value >>> 16).setWidth 8
  else if q = p + 3 then (value >>> 24).setWidth 8
  else m q

/-- `equal` -/
def equal (a b : Address) (length : Nat) : Bool :=
  (List.range length).all fun i => m (a + BitVec.ofNat 32 i) = m (b + BitVec.ofNat 32 i)

/-- What a pointer points to. -/
def bytesAt (p : Address) : Buffer := fun i => m (p + BitVec.ofNat 32 i)

/-- What a pointer points to; the null pointer to nothing. -/
def buffer (p : Address) : Option Buffer := if p = 0 then none else some (m.bytesAt p)

end Memory

/-- The vendor's helpers. -/
structure Originals where
  /-- `rxfilter_original_count` -/
  count : Memory → BitVec 32 → BitVec 32
  /-- `rxfilter_original_multicast` -/
  multicast : Memory → Address → BitVec 32
  /-- `rxfilter_original_reason` -/
  reason : Memory → BitVec 32 → Memory

/-- The memory, and the reasons that were given. -/
structure Firmware where
  memory : Memory
  reasons : List (BitVec 32)

/-! ### The masks -/

def ipv4Ports : List Nat := [5353, 5355, 138, 5246, 53, 137, 1900]

/-- `(mask >> i) & 1` -/
def maskBit (mask : BitVec 32) (i : Nat) : BitVec 32 := (mask >>> i) &&& 1

/-- `ipv4_udp` -/
def ipv4Udp (m : Memory) (mask : BitVec 32) (ip : Address) : BitVec 32 :=
  if mask &&& 1 ≠ 0 then 1
  else
    let source := m.network16 (ip + 20)
    let destination := m.network16 (ip + 22)
    if source = 67 ∧ destination = 68 then 0
    else if source = 68 ∧ destination = 67 then maskBit mask 10
    else
      match ipv4Ports.findIdx? fun port => source = port ∨ destination = port with
      | some i => maskBit mask (i + 1)
      | none =>
          if destination = 19132 then maskBit mask 11
          else if mask &&& 0x1000 ≠ 0 ∧ m (ip + 16) = 224 ∧ m (ip + 17) = 0 ∧ m (ip + 18) = 0 then 1
          else maskBit mask 8

/-- The address is one of a list of `count`, which are `stride` bytes apart. -/
def listed (m : Memory) (address list : Address) (count : Byte) (stride length : Nat) : Bool :=
  (List.range count.toNat).any fun i =>
    m.equal address (list + BitVec.ofNat 32 (i * stride)) length

/-- The IPv4 part of `rxfilter_legacy_bitmap`. -/
def bitmapIpv4 (m : Memory) (ip list masks : Address) : BitVec 32 :=
  let mask := m.load32 masks
  if mask ||| m.load32 (masks + 4) = 0 then 0
  else if listed m (ip + 16) list (m (list + 0x20)) 8 4 then 0
  else if m (ip + 9) = 17 then ipv4Udp m mask ip
  else if m (ip + 9) = 2 then maskBit mask 9
  else 0

/-- The IPv6 part. -/
def bitmapIpv6 (m : Memory) (ip list masks : Address) : BitVec 32 :=
  let mask := m.load32 (masks + 8)
  if mask ||| m.load32 (masks + 12) = 0 then 0
  else if listed m (ip + 24) (list + 0x25) (m (list + 0x65)) 16 16 then 0
  else if mask &&& 1 ≠ 0 ∨ (mask &&& 2 ≠ 0 ∧ m (ip + 24) = 255) then 1
  else 0

/-- The part for all other types. -/
def bitmapOther (m : Memory) (ethernet masks : Address) (type : Nat) : BitVec 32 :=
  let mask := m.load32 (masks + 16)
  if mask &&& 1 ≠ 0 then 1
  else if type = 0x9000 then maskBit mask 5
  else if type = 0x2000 then maskBit mask 1
  else if m.load16 (ethernet + 12) < 8 then maskBit mask 4
  else 0

section Legacy

variable (o : Originals)

/-- `rxfilter_legacy_bitmap` -/
def rxfilterLegacyBitmap (m : Memory) (descriptor : Address) : BitVec 32 :=
  let station := m.load32 (descriptor + 0x64)
  if station = 0 then 0
  else
    let bss := m.load32 (station + 0x0c)
    if bss = 0 ∨ m bss ≥ 4 ∨ m.load32 (bss + 0x28) ≠ 0 ∨ m.load32 (bss + 0x1c) ≠ 0 ∨
        (o.count m 0 = 0 ∧ o.count m 1 = 0) then
      0
    else
      let ethernet := m.load32 (descriptor + 0x2c)
      let ip := m.load32 (descriptor + 0x30)
      let list := m.load32 (0xf03c65c8#32 + 4#32 * (m bss).setWidth 32)
      let masks := 0xf03c6410#32
      let type := m.network16 (ethernet + 12)
      if type = 0x0800 then bitmapIpv4 m ip list masks
      else if type = 0x86dd then bitmapIpv6 m ip list masks
      else bitmapOther m ethernet masks type

/-- The counters of the BSS. -/
def countStation (m : Memory) (bss : Address) : Memory :=
  let statistics := m.load32 (bss + 0x38)
  let m := m.store32 (statistics + 0x2a8) (m.load32 (statistics + 0x2a8) + 1)
  m.store32 (statistics + 0x310) (m.load32 (statistics + 0x308) + 1)

/-- The global counter of 64 bits. -/
def countGlobal (m : Memory) : Memory :=
  let global := m.load32 0xf03adc2c
  let low := m.load32 (global + 0x58) + 1
  let m := m.store32 (global + 0x58) low
  m.store32 (global + 0x5c) (m.load32 (global + 0x5c) + if low = 0 then 1 else 0)

/-- The station record of a frame permits counting: there is none, or it has a BSS. -/
def permitsCounting (m : Memory) (descriptor : Address) : Bool :=
  let station := m.load32 (descriptor + 0x64)
  let bss := m.load32 (station + 0x0c)
  station = 0 ∨ ¬ (bss = 0 ∨ m bss ≥ 4)

/-- `rxfilter_legacy_record_drop` -/
def rxfilterLegacyRecordDrop (f : Firmware) (descriptor : Address) (reason : BitVec 32) :
    BitVec 32 × Firmware :=
  let station := f.memory.load32 (descriptor + 0x64)
  if station ≠ 0 then
    let bss := f.memory.load32 (station + 0x0c)
    if bss = 0 ∨ f.memory bss ≥ 4 then (0, f)
    else
      let m := countGlobal (countStation f.memory bss)
      (1, ⟨o.reason m reason, reason :: f.reasons⟩)
  else (1, ⟨o.reason (countGlobal f.memory) reason, reason :: f.reasons⟩)

/-- The feature flag at `0xf03add1e`. -/
def featureFlag (m : Memory) : Bool := m 0xf03add1e ≠ 0

/-- The reason of a drop. -/
def dropReason (broadcast group : BitVec 32) : BitVec 32 :=
  if broadcast ≠ 0 then 9 else if group ≠ 0 then 10 else 11

/-- `rxfilter_legacy_wrapper` -/
def rxfilterLegacyWrapper (f : Firmware) (descriptor : Address) (broadcast : BitVec 32) :
    BitVec 32 × Firmware :=
  let broadcast := broadcast &&& 255
  let group := o.multicast f.memory descriptor
  let bitmap := rxfilterLegacyBitmap o f.memory descriptor
  if ¬ featureFlag f.memory ∨ ¬ (broadcast ≠ 0 ∨ group ≠ 0 ∨ bitmap ≠ 0) then (0, f)
  else rxfilterLegacyRecordDrop o f descriptor (dropReason broadcast group)

/-- A drop is recorded when the station record permits it, and nothing changes when it does not. -/
theorem recordDrop_of_permits {f : Firmware} {descriptor : Address}
    (h : permitsCounting f.memory descriptor = true) (reason : BitVec 32) :
    ∃ m, rxfilterLegacyRecordDrop o f descriptor reason = (1, ⟨m, reason :: f.reasons⟩) := by
  unfold permitsCounting at h
  dsimp only at h
  rw [decide_eq_true_iff] at h
  unfold rxfilterLegacyRecordDrop
  dsimp only
  split
  · rename_i hstation
    rw [if_neg (h.resolve_left hstation)]
    exact ⟨_, rfl⟩
  · exact ⟨_, rfl⟩

theorem recordDrop_of_not_permits {f : Firmware} {descriptor : Address}
    (h : permitsCounting f.memory descriptor = false) (reason : BitVec 32) :
    rxfilterLegacyRecordDrop o f descriptor reason = (0, f) := by
  unfold permitsCounting at h
  dsimp only at h
  rw [decide_eq_false_iff_not, not_or, not_not] at h
  unfold rxfilterLegacyRecordDrop
  dsimp only
  rw [if_pos h.1, if_pos h.2]

end Legacy

end Mindone.Wifi
