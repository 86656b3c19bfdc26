import Mindone.Lib.Checked
import Mindone.Lib.LittleEndian

/-!
# Mindone.Tether.FlowParser

The reader of connection tracking messages of the tethering offload
(`bridges/tetheroffload/FlowParser.cpp`). A message is a netlink header, a header of the connection
tracker, and a list of attributes, each with its length and type in front and padded to whole words;
the payload of an attribute may be such a list again. The parser keeps **places in its buffer**, as
the source does, and every read is checked against the end of the buffer.
-/

namespace Mindone.Tether

open Lib Lib.Checked

abbrev Bytes := List UInt8

/-- `std::array<uint8_t, 16>` -/
abbrev Address := Vector UInt8 16

/-! ### Constants of the kernel -/

def afInet : Nat := 2
def afInet6 : Nat := 10
def nfnlSubsysCtnetlink : Nat := 1
def ipctnlMsgCtNew : Nat := 0
def ipctnlMsgCtDelete : Nat := 2
def nfnetlinkV0 : Nat := 0
def ctaTupleOrig : Nat := 1
def ctaTupleReply : Nat := 2
def ctaStatus : Nat := 3
def ctaTimeout : Nat := 7
def ctaId : Nat := 12
def ctaZone : Nat := 18
def ctaTupleIp : Nat := 1
def ctaTupleProto : Nat := 2
def ctaIpV4Src : Nat := 1
def ctaIpV4Dst : Nat := 2
def ctaIpV6Src : Nat := 3
def ctaIpV6Dst : Nat := 4
def ctaProtoNum : Nat := 1
def ctaProtoSrcPort : Nat := 2
def ctaProtoDstPort : Nat := 3
def ipprotoTcp : UInt8 := 6
def ipprotoUdp : UInt8 := 17

/-- `NLMSG_HDRLEN` -/
def nlmsgHdrlen : Nat := 16

/-- `NLMSG_LENGTH(sizeof(nfgenmsg))` -/
def messageStart : Nat := 20

/-- `NLA_ALIGN` -/
def nlaAlign (length : Nat) : Nat := (length + 3) / 4 * 4

/-- `type & NLA_TYPE_MASK` -/
def nlaType (type : Nat) : Nat := type % 0x4000

/-! ### Flows -/

structure Flow where
  family : Int
  proto : UInt8
  src : Address
  dst : Address
  pub : Address
  replySrc : Address
  sport : UInt16
  dport : UInt16
  publicPort : UInt16
  replyPort : UInt16
  timeout : UInt32
  status : UInt32
  id : UInt32
  destroy : Bool
  deriving DecidableEq

/-- The low byte of a number, `static_cast<char>`. -/
def lowByte (value : Int) : UInt8 := UInt8.ofNat (value % 0x100).toNat

def Flow.key (f : Flow) : Bytes :=
  [lowByte f.family, f.proto] ++ f.src.toList ++ f.dst.toList ++ toLe 2 f.sport.toNat ++
    toLe 2 f.dport.toNat

/-! ### Attributes -/

/-- A part of the buffer. -/
structure Value where
  data : Nat
  size : Nat
  deriving DecidableEq

/-- `std::map<unsigned, Value>`, in the order in which the attributes were found. -/
abbrev Attributes := List (Nat × Value)

/-- A parser that reads the buffer, or refuses it. -/
abbrev Reader (α : Type) := Except (Stop Unit) α

def refuse {α : Type} : Reader α := throw (.error ())

/-- `memcpy` out of the buffer. -/
def read (buffer : Bytes) (offset size : Nat) : Reader Bytes := slice buffer offset (offset + size)

/-- The loop of `attributes`. -/
def attributes (buffer : Bytes) (data size : Nat) (out : Attributes) : Reader Attributes :=
  if size = 0 then return out
  else if size < 4 then refuse
  else do
    let h ← read buffer data 4
    let length := leAt 2 h 0
    if hlength : length < 4 ∨ length > size then refuse
    else
      let aligned := nlaAlign length
      if halign : aligned > size then refuse
      else if (out.lookup (nlaType (leAt 2 h 2))).isSome then refuse
      else
        attributes buffer (data + aligned) (size - aligned)
          (out ++ [(nlaType (leAt 2 h 2), ⟨data + 4, length - 4⟩)])
termination_by size
decreasing_by
  simp only [not_or, Nat.not_lt, nlaAlign] at hlength halign ⊢
  omega

/-- The attribute of a type. -/
def find (a : Attributes) (type : Nat) : Reader Value :=
  match a.lookup type with
  | none => refuse
  | some value => return value

def nested (buffer : Bytes) (parent : Attributes) (type : Nat) : Reader Attributes := do
  let value ← find parent type
  attributes buffer value.data value.size []

def copy (buffer : Bytes) (a : Attributes) (type size : Nat) : Reader Bytes := do
  let value ← find a type
  if value.size ≠ size then refuse
  else read buffer value.data size

/-- The bytes of an address at the front of its array. -/
def toAddress (bytes : Bytes) : Address := Vector.ofFn fun i => bytes.getD i.val 0

/-- A `uint16_t` and a `uint32_t` as they lie in the memory. -/
def port (bytes : Bytes) : UInt16 := UInt16.ofNat (ofLe bytes)
def load32 (bytes : Bytes) : UInt32 := UInt32.ofNat (ofLe bytes)

/-- `ntohl` of a word as it lies in the memory. -/
def networkWord (bytes : Bytes) : UInt32 := load32 bytes.reverse

/-- What `tuple` leaves in its results. -/
structure Endpoints where
  src : Address
  dst : Address
  sport : UInt16
  dport : UInt16
  proto : UInt8
  deriving DecidableEq

/-- The size of an address. -/
def addressSize (v4 : Bool) : Nat := if v4 then 4 else 16

def tuple (buffer : Bytes) (a : Attributes) (type : Nat) (v4 : Bool) : Reader Endpoints := do
  let tuple ← nested buffer a type
  let ip ← nested buffer tuple ctaTupleIp
  let proto ← nested buffer tuple ctaTupleProto
  let src ← copy buffer ip (if v4 then ctaIpV4Src else ctaIpV6Src) (addressSize v4)
  let dst ← copy buffer ip (if v4 then ctaIpV4Dst else ctaIpV6Dst) (addressSize v4)
  let protocol ← copy buffer proto ctaProtoNum 1
  let sport ← copy buffer proto ctaProtoSrcPort 2
  let dport ← copy buffer proto ctaProtoDstPort 2
  return ⟨toAddress src, toAddress dst, port sport, port dport, protocol.headD 0⟩

/-! ### Messages -/

/-- The id, when the message has one. -/
def flowId (buffer : Bytes) (a : Attributes) : Reader UInt32 :=
  if (a.lookup ctaId).isSome then do
    let id ← copy buffer a ctaId 4
    return load32 id
  else return 0

/-- The zone, when the message has one, is zero. -/
def checkZone (buffer : Bytes) (a : Attributes) : Reader PUnit :=
  if (a.lookup ctaZone).isSome then do
    let zone ← copy buffer a ctaZone 2
    if port zone ≠ 0 then refuse else return
  else return

/-- What a message about a new flow tells beyond the original tuple. -/
def replySide (buffer : Bytes) (a : Attributes) (f : Flow) (v4 : Bool) : Reader Flow := do
  let reply ← tuple buffer a ctaTupleReply v4
  if reply.proto ≠ f.proto then refuse
  else do
    let timeout ← copy buffer a ctaTimeout 4
    let status ← copy buffer a ctaStatus 4
    return { f with
      replySrc := reply.src, pub := reply.dst, replyPort := reply.sport, publicPort := reply.dport
      timeout := networkWord timeout, status := networkWord status }

def noAddress : Address := Vector.replicate 16 0

/-- The flow of a message of a family and a command, from its attributes on. -/
def flowOf (buffer : Bytes) (a : Attributes) (family : Nat) (destroy : Bool) : Reader Flow := do
  let v4 := family == afInet
  let orig ← tuple buffer a ctaTupleOrig v4
  if orig.proto ≠ ipprotoTcp ∧ orig.proto ≠ ipprotoUdp then refuse
  else do
    let id ← flowId buffer a
    checkZone buffer a
    let f : Flow := {
      family, destroy, id, proto := orig.proto
      src := orig.src, dst := orig.dst, sport := orig.sport, dport := orig.dport
      pub := noAddress, replySrc := noAddress, publicPort := 0, replyPort := 0
      timeout := 0, status := 0 }
    if destroy then return f else replySide buffer a f v4

def parseFlow (buffer : Bytes) : Reader Flow :=
  if buffer.length < messageStart then refuse
  else do
    let h ← read buffer 0 16
    let type := leAt 2 h 4
    if leAt 4 h 0 ≠ buffer.length ∨ type / 0x100 ≠ nfnlSubsysCtnetlink then refuse
    else
      let command := type % 0x100
      if command ≠ ipctnlMsgCtNew ∧ command ≠ ipctnlMsgCtDelete then refuse
      else do
        let gen ← read buffer nlmsgHdrlen 4
        let family := leAt 1 gen 0
        if (family ≠ afInet ∧ family ≠ afInet6) ∨ leAt 1 gen 1 ≠ nfnetlinkV0 then refuse
        else do
          let a ← attributes buffer messageStart (buffer.length - messageStart) []
          flowOf buffer a family (command == ipctnlMsgCtDelete)

/-! ### Prefixes -/

def slash : UInt8 := 0x2f

/-- The loop over the digits behind the slash. -/
def prefixBits : Bytes → Nat → Option Nat
  | [], bits => some bits
  | c :: rest, bits =>
      if c < 0x30 ∨ c > 0x39 ∨ bits > 128 then none
      else prefixBits rest (bits * 10 + (c.toNat - 0x30))

/-- The bytes of a text up to its first terminator. -/
def cString (text : Bytes) : Bytes := text.takeWhile (· != 0)

/-- `contains`. `inetPton` is what the library function leaves in the array, when it succeeds. -/
def contains (inetPton : Nat → Bytes → Option Address) (text : Bytes) (family : Nat)
    (ip : Address) : Bool :=
  match text.idxOf? slash with
  | none => false
  | some at_ =>
      match inetPton family (cString (text.take at_)) with
      | none => false
      | some network =>
          match prefixBits (text.drop (at_ + 1)) 0 with
          | none => false
          | some bits =>
              decide (bits ≤ if family = afInet then 32 else 128) &&
                (List.range bits).all fun i =>
                  (ip.toList.getD (i / 8) 0 ^^^ network.toList.getD (i / 8) 0) &&&
                    (128 >>> UInt8.ofNat (i % 8)) == 0

/-- The loop over the digits of a mask, which are known to be such. -/
def decimalFrom (bits : Nat) (mask : Bytes) : Nat :=
  mask.foldl (fun bits c => bits * 10 + (c.toNat - 0x30)) bits

/-- `address` of `MddpBackend.cpp`. -/
def address (inetPton : Nat → Bytes → Option Address) (text : Bytes) (family : Nat) : Bool :=
  !text.contains 0 && (inetPton family (cString text)).isSome

/-- `prefix` of `MddpBackend.cpp`, which every prefix passes before it is kept. -/
def prefixOk (inetPton : Nat → Bytes → Option Address) (text : Bytes) : Bool :=
  match text.idxOf? slash with
  | none => false
  | some at_ =>
      if at_ + 1 = text.length then false
      else
        let ip := text.take at_
        let mask := text.drop (at_ + 1)
        if mask.length > 3 ∨ mask.any fun c => c < 0x30 || c > 0x39 then false
        else
          let bits := decimalFrom 0 mask
          (address inetPton ip afInet && decide (bits ≤ 32)) ||
            (address inetPton ip afInet6 && decide (bits ≤ 128))

end Mindone.Tether
