import Mathlib.Data.List.Basic
import Mathlib.Data.Nat.Bitwise

/-!
# Mindone.Fsd.Wire

What the file service of the modem (`modem/ccci-userspace/fsd/ccci_fsd.c`) reads and writes on
`/dev/ccci_fs`: a datagram is a CCCI header of four words and a payload, the payload of a
request is an operation, a number of segments and the segments, each with its length in front
and padded to whole words. Words are little-endian, a C string is the list of its bytes before
the terminator, and `int32_t` values are integers that are reduced where they are stored.
-/

namespace Mindone.Fsd

abbrev Bytes := List UInt8

/-- A C string. -/
abbrev Path := List UInt8

/-- A string of the source. -/
def path (literal : String) : Path := literal.toList.map fun c => UInt8.ofNat c.toNat

/-! ### Words -/

def byteAt (bytes : Bytes) (offset : Nat) : Nat := (bytes.getD offset 0).toNat

/-- The word at an offset. -/
def word (bytes : Bytes) (offset : Nat) : Nat :=
  byteAt bytes offset + 0x100 * byteAt bytes (offset + 1) + 0x10000 * byteAt bytes (offset + 2) +
    0x1000000 * byteAt bytes (offset + 3)

/-- A word read as an `int32_t`. -/
def signed (w : Nat) : Int := if w < 0x80000000 then w else (w : Int) - 0x100000000

/-- A value stored into an `int32_t`. -/
def int32 (value : Int) : Int := signed (value % 0x100000000).toNat

def le32 (w : Nat) : Bytes :=
  [UInt8.ofNat w, UInt8.ofNat (w / 0x100), UInt8.ofNat (w / 0x10000), UInt8.ofNat (w / 0x1000000)]

def leInt (value : Int) : Bytes := le32 (value % 0x100000000).toNat

/-- `(len + 3) & ~3` -/
def padded (len : Nat) : Nat := (len + 3) / 4 * 4

/-! ### Results -/

def fsNoError : Int := 0
def fsParamError : Int := -2
def fsNoMatch : Int := -4
def fsMemOverflow : Int := -7
def fsErrEnoentMapped : Int := -9
def fsErrEaccesMapped : Int := -16
def fsErrEmfileMapped : Int := -5
def fsErrGenericMapped : Int := -18

/-! ### Datagrams -/

def ioBufSize : Nat := 4096

/-- The words of `struct ccci_header`: `data[0]`, `data[1]`, the channel with the sequence
number, and a reserved one. -/
structure Header where
  data0 : Nat
  data1 : Nat
  channelSeq : Nat
  reserved : Nat
  deriving DecidableEq

def headerSize : Nat := 16

def Header.ofBytes (bytes : Bytes) : Header :=
  ⟨word bytes 0, word bytes 4, word bytes 8, word bytes 12⟩

/-- The channel is a field of 16 bits. -/
def Header.channel (hdr : Header) : Nat := hdr.channelSeq % 0x10000

def ccciFsChannelRx : Nat := 14

/-- The sign of `data[0]` marks a fragment that more follow. -/
def Header.continues (hdr : Header) : Bool := hdr.data0.testBit 31

/-- The segments of a response from an offset on, `none` when they do not fit. -/
def layout (cap : Nat) : Nat → List Bytes → Option Bytes
  | _, [] => some []
  | off, seg :: rest =>
      let off := off + 4 + padded seg.length
      if off > cap then none
      else do
        return le32 seg.length ++ seg ++ List.replicate (padded seg.length - seg.length) 0 ++
          (← layout cap off rest)

/-- `build_resp`: empty when the response does not fit. -/
def buildResp (hdr : Header) (opId : Nat) (segs : List Bytes) : Bytes :=
  match layout ioBufSize 24 segs with
  | none => []
  | some body =>
      le32 (hdr.data0 % 0x80000000) ++ le32 (24 + body.length) ++ le32 (hdr.channelSeq + 1) ++
        le32 hdr.reserved ++ le32 (opId ||| 0xFFFF0000) ++ le32 segs.length ++ body

/-- `build_result_resp` -/
def buildResultResp (hdr : Header) (opId : Nat) (result : Int) : Bytes :=
  buildResp hdr opId [leInt result]

/-- The segments of `build_data_resp`: the data has one only when there is any. -/
def dataSegs (result : Int) (data : Bytes) : List Bytes :=
  if data = [] then [leInt result] else [leInt result, data]

/-! ### Requests -/

/-- `struct fs_req` -/
structure Request where
  opId : Nat
  segs : List Bytes
  deriving DecidableEq

def fsMaxSegs : Nat := 8

/-- The loop over the segments from an offset on. -/
def parseSegs (payload : Bytes) : Nat → Nat → Option (List Bytes)
  | 0, _ => some []
  | nseg + 1, off =>
      if off + 4 > payload.length then none
      else
        let seglen := word payload off
        let off := off + 4
        if seglen > payload.length - off then none
        else do
          return (payload.drop off).take seglen :: (← parseSegs payload nseg (off + padded seglen))

/-- `fs_parse_req` -/
def fsParseReq (payload : Bytes) : Option Request :=
  if payload.length < 8 then none
  else if word payload 4 > fsMaxSegs then none
  else do
    return ⟨word payload 0, ← parseSegs payload (word payload 4) 8⟩

/-- A segment, when the request has it. -/
def Request.seg (req : Request) (i : Nat) : Option Bytes := req.segs[i]?

/-- A segment of at least `size` bytes. -/
def Request.segOf (req : Request) (i size : Nat) : Option Bytes :=
  (req.seg i).filter fun seg => decide (size ≤ seg.length)

/-- The word in front of a segment, zero when it is not there. -/
def Request.wordOr (req : Request) (i : Nat) : Nat := (req.segOf i 4).elim 0 (word · 0)

/-! ### Paths -/

/-- The loop over the characters. -/
def wcsLoop : Bytes → Option Path
  | lo :: hi :: rest =>
      let wc := lo.toNat + 0x100 * hi.toNat
      if wc = 0 then some []
      else if wc ≥ 0x80 then none
      else do return UInt8.ofNat wc :: (← wcsLoop rest)
  | _ => some []

def pathCap : Nat := 260
def realCap : Nat := 512
def pathMax : Nat := 4096

/-- `fs_wcs_to_str` -/
def fsWcsToStr (src : Bytes) (cap : Nat) : Option Path :=
  if src.length / 2 ≥ cap then none else wcsLoop src

def dot : UInt8 := 0x2e
def slash : UInt8 := 0x2f
def colon : UInt8 := 0x3a
def backslash : UInt8 := 0x5c

/-- `fs_drive_dir` -/
def fsDriveDir (p : Path) : Path :=
  match p.headD 0 with
  | 0x5a | 0x7a => path "/mnt/vendor/nvdata/md"
  | 0x58 | 0x78 => path "/mnt/vendor/protect_f/md"
  | 0x59 | 0x79 => path "/mnt/vendor/protect_s/md"
  | _ => path "/mnt/vendor/nvdata"

/-- The loop that copies the path behind the drive; `out` is what is copied so far. -/
def resolveLoop (cap : Nat) : Path → Path → Option Path
  | out, [] => some out
  | out, c :: rest =>
      if c = dot ∧ rest.head? = some dot then none
      else if out.length + 1 ≥ cap then none
      else resolveLoop cap (out ++ [if c = backslash then slash else c]) rest

/-- `fs_resolve` -/
def fsResolve (p : Path) (cap : Nat) : Option Path :=
  match p with
  | _ :: second :: rest =>
      if second ≠ colon then none
      else if (fsDriveDir p).length + 1 ≥ cap then none
      else resolveLoop cap (fsDriveDir p) rest
  | _ => none

/-- `struct fs_root` -/
structure Root where
  start : Path
  realDir : Path
  live : Bool

def kRoots : List Root := [
  ⟨path "/nvdata/md_cmn", path "/mnt/vendor/nvdata/md_cmn", true⟩,
  ⟨path "/nvdata/md3_v", path "/mnt/vendor/nvdata/md3_v", false⟩,
  ⟨path "/nvdata/md2", path "/mnt/vendor/nvdata/md2", false⟩,
  ⟨path "/nvdata/md3", path "/mnt/vendor/nvdata/md3", false⟩,
  ⟨path "/nvdata/md5", path "/mnt/vendor/nvdata/md5", false⟩,
  ⟨path "/nvdata/md", path "/mnt/vendor/nvdata/md", true⟩,
  ⟨path "/protect_f/md2", path "/mnt/vendor/protect_f/md2", false⟩,
  ⟨path "/protect_f/md3", path "/mnt/vendor/protect_f/md3", false⟩,
  ⟨path "/protect_f/md", path "/mnt/vendor/protect_f/md", true⟩,
  ⟨path "/protect_s/md2", path "/mnt/vendor/protect_s/md2", false⟩,
  ⟨path "/protect_s/md3", path "/mnt/vendor/protect_s/md3", false⟩,
  ⟨path "/protect_s/md", path "/mnt/vendor/protect_s/md", true⟩,
  ⟨path "/nvcfg", path "/mnt/vendor/nvcfg", true⟩]

/-- `path_resolve`: the path, or a result. -/
def pathResolve (name : Path) (cap : Nat) : Except Int Path :=
  if name.head? ≠ some slash then .error fsParamError
  else if name.tails.any fun rest => [dot, dot].isPrefixOf rest then .error fsParamError
  else
    match kRoots.find? fun root => root.start.isPrefixOf name with
    | none => .error fsNoMatch
    | some root =>
        if !root.live then .error fsNoMatch
        else
          let out := root.realDir ++ name.drop root.start.length
          if out.length ≥ cap then .error fsMemOverflow else .ok out

end Mindone.Fsd
