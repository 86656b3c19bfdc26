import Mindone.Fsd.Files

/-!
# Mindone.Fsd.Daemon

How the file service answers a datagram: the two legacy tests of `main`, which look at raw
words of the payload, the parser behind them, the stage that resolves the paths of a request,
and the operations. `dispatch` is what `main` does with a request that it has parsed, and
`serve` is one turn of its loop. Log messages are left out.
-/

namespace Mindone.Fsd

open Mindone.Lib

/-! ### Operations -/

inductive Op
  | open
  | seek
  | read
  | write
  | close
  | closeAll
  | createDir
  | removeDir
  | getFileSize
  | getFolderSize
  | rename
  | move
  | count
  | getDiskInfo
  | delete
  | getAttributes
  | openEx
  | findFirst
  | findNext
  | findClose
  | lf
  | uk
  | closeAll2
  | xdelete
  | cdf
  | getDrive
  | getClusterSize
  | sdf
  | otpWrite
  | otpRead
  | otpQueryLength
  | otpLock
  | restore
  | cmptRead
  | binRegion
  | cmptWrite
  | getFileDetail
  deriving DecidableEq

/-- The operations in the order of their codes. -/
def Op.all : List Op := [
  .open, .seek, .read, .write, .close, .closeAll, .createDir, .removeDir, .getFileSize,
  .getFolderSize, .rename, .move, .count, .getDiskInfo, .delete, .getAttributes, .openEx,
  .findFirst, .findNext, .findClose, .lf, .uk, .closeAll2, .xdelete, .cdf, .getDrive,
  .getClusterSize, .sdf, .otpWrite, .otpRead, .otpQueryLength, .otpLock, .restore, .cmptRead,
  .binRegion, .cmptWrite, .getFileDetail]

/-- The code of an operation: they run from `0x1001` to `0x1025`. -/
def Op.id (op : Op) : Nat := 0x1001 + Op.all.idxOf op

/-- The operation of a code, if the switch has a case for it. -/
def Op.ofId (id : Nat) : Option Op := Op.all.find? fun op => op.id == id

/-- The operations with a path in their first segment. -/
def Op.takesPath : Op → Bool
  | .open | .openEx | .getAttributes | .getDiskInfo | .createDir | .removeDir | .delete
  | .xdelete | .getFileSize | .getFolderSize | .count | .findFirst | .cmptRead | .cmptWrite
  | .getFileDetail | .restore | .rename | .move => true
  | _ => false

/-- What the first stage makes of a request. -/
inductive Paths
  /-- No usable path: the request is not served. -/
  | unusable
  | refused (result : Int)
  /-- The path of the modem, the real one, and the second one of a renaming. -/
  | found (name real real2 : Path)
  deriving DecidableEq

/-- The path in a segment, as it is and resolved. -/
def pathOf (seg : Option Bytes) : Option Path := seg.bind fun bytes => fsWcsToStr bytes pathCap

def stage1 (op : Op) (req : Request) : Paths :=
  if !op.takesPath then .found [] [] []
  else
    match pathOf (req.seg 0) with
    | none => .unusable
    | some name =>
        match fsResolve name realCap with
        | none => .refused fsErrEnoentMapped
        | some real =>
            if op = .rename ∨ op = .move then
              match (pathOf (req.seg 1)).bind (fsResolve · realCap) with
              | none => .refused fsParamError
              | some real2 => .found name real real2
            else .found name real []

/-- A refused path is answered with a parameter error only when it is the second one. -/
theorem stage1_refused {op : Op} {req : Request} {rc : Int} (h : stage1 op req = .refused rc) :
    (rc = fsParamError ∧ (op = .rename ∨ op = .move)) ∨ rc = fsErrEnoentMapped := by
  unfold stage1 at h
  split at h
  · cases h
  split at h
  · cases h
  split at h
  · cases h
    exact .inr rfl
  split at h
  · rename_i hop
    split at h
    · cases h
      exact .inl ⟨rfl, hop⟩
    · cases h
  · cases h

/-! ### Compound requests -/

def errnoToFsResult : Errno → Int
  | .enoent => fsErrEnoentMapped
  | .eacces => fsErrEaccesMapped
  | .emfile => fsErrEmfileMapped
  | _ => fsErrGenericMapped

/-- `struct ccci_fs_cmpt_write_req`, with the bytes behind it. -/
structure CmptWriteReq where
  opidMap : Nat
  flag : Nat
  offset : Nat
  whence : Int
  length : Nat
  fileHandle : Int
  data : Bytes
  deriving DecidableEq

def cmptWriteSize : Nat := 0x28

def CmptWriteReq.ofBytes (bytes : Bytes) : CmptWriteReq :=
  { opidMap := word bytes 0
    flag := word bytes 0xc
    offset := word bytes 0x10
    whence := signed (word bytes 0x14)
    length := word bytes 0x1c
    fileHandle := signed (word bytes 0x20)
    data := bytes.drop cmptWriteSize }

/-- The bytes that are written: `length` of them, or all when there are fewer. -/
def CmptWriteReq.written (req : CmptWriteReq) : Bytes :=
  if 0 < req.length ∧ req.length ≤ req.data.length then req.data.take req.length else req.data

/-- `handle_get_fd`: handles are the positions of `g_handles`, counted from one. -/
def handleGetFd (t : Tables) (handle : Int) : Option (Fin maxOpenHandles × Nat) :=
  if hn : 1 ≤ handle ∧ handle.toNat - 1 < maxOpenHandles then
    (t.handles ⟨handle.toNat - 1, hn.2⟩).map (⟨handle.toNat - 1, hn.2⟩, ·)
  else none

/-- The bit `SEEK` of a compound request: the error of `lseek`. -/
def cmptSeek (asked : Bool) (fd : Nat) (offset : Nat) (whence : Int) : Sys (Option Errno) := do
  if asked then
    match ← perform (.lseek fd offset whence) with
    | .error e => return some e
    | .ok _ => return none
  else return none

/-- The bit `WRITE`: the error of `write`. -/
def cmptPut (req : CmptWriteReq) (fd : Nat) : Sys (Option Errno) := do
  if req.opidMap.testBit 5 then
    match ← perform (.write fd req.written) with
    | .error e => return some e
    | .ok _ => return none
  else return none

/-- Seeking, writing and closing with a descriptor. -/
def cmptWriteOn (req : CmptWriteReq) (i : Fin maxOpenHandles) (fd : Nat) : Sys (Int × Int) := do
  let handle : Int := i.val + 1
  match ← cmptSeek (req.opidMap.testBit 2) fd req.offset req.whence with
  | some e => return (errnoToFsResult e, handle)
  | none =>
      match ← cmptPut req fd with
      | some e => return (errnoToFsResult e, handle)
      | none =>
          if req.opidMap.testBit 4 then
            perform (.close fd)
            modify fun t => { t with handles := Function.update t.handles i none }
            return (fsNoError, -1)
          else return (fsNoError, handle)

/-- `handle_cmpt_write`: the result and `out_handle`. -/
def handleCmptWrite (req : CmptWriteReq) (real : Path) : Sys (Int × Int) := do
  if req.fileHandle < 0 then
    if req.opidMap.testBit 0 then
      if real.length ≥ pathMax then return (fsParamError, -1)
      else
        match ← perform (.open real ⟨true, req.flag.testBit 0, req.flag.testBit 1, false⟩) with
        | .error e => return (errnoToFsResult e, -1)
        | .ok fd =>
            let t ← get
            match (List.finRange maxOpenHandles).find? fun i => (t.handles i).isNone with
            | none =>
                perform (.close fd)
                return (fsMemOverflow, -1)
            | some i =>
                modify fun t => { t with handles := Function.update t.handles i (some fd) }
                cmptWriteOn req i fd
    else return (fsParamError, -1)
  else
    match handleGetFd (← get) req.fileHandle with
    | none => return (fsParamError, -1)
    | some (i, fd) => cmptWriteOn req i fd

/-- `struct ccci_fs_cmpt_read_req` -/
structure CmptReadReq where
  opidMap : Nat
  flag : Nat
  offset : Nat
  whence : Int
  length : Nat
  deriving DecidableEq

def cmptReadSize : Nat := 0x24

def CmptReadReq.ofBytes (bytes : Bytes) : CmptReadReq :=
  { opidMap := word bytes 0
    flag := word bytes 0xc
    offset := word bytes 0x14
    whence := signed (word bytes 0x18)
    length := word bytes 0x20 }

/-- `handle_cmpt_read`: the result and the bytes that were read. The descriptor is closed in
any case. -/
def handleCmptRead (req : CmptReadReq) (real : Path) : Sys (Int × Bytes) := do
  if req.opidMap.testBit 0 then
    match ← perform (.open real ⟨true, req.flag.testBit 0, false, false⟩) with
    | .error e => return (errnoToFsResult e, [])
    | .ok fd =>
        match ← cmptSeek (req.opidMap.testBit 2) fd req.offset req.whence with
        | some e =>
            perform (.close fd)
            return (errnoToFsResult e, [])
        | none =>
            if req.opidMap.testBit 3 then
              let count :=
                if 0 < req.length ∧ req.length ≤ ioBufSize then req.length else ioBufSize
              match ← perform (.read fd count) with
              | .error e =>
                  perform (.close fd)
                  return (errnoToFsResult e, [])
              | .ok bytes =>
                  perform (.close fd)
                  return (fsNoError, bytes.val)
            else
              perform (.close fd)
              return (fsNoError, [])
  else return (fsParamError, [])

/-! ### The cases of the switch -/

section Cases

/-- `FS_ATTR_READONLY` and `FS_ATTR_DIRECTORY` of what `stat` and `access` found. -/
def attributes (st : Stat) (writable : Bool) : Nat :=
  (if writable then 0 else 0x01) ||| (if st.isDir then 0x10 else 0)

def caseGetAttributes (real : Path) : Sys Int := do
  match ← perform (.stat real) with
  | .error _ => return fsErrEnoentMapped
  | .ok st => return attributes st (← perform (.access real))

/-- The operations that are one call, with their results. -/
def caseCall (answered : Sys (Except Errno Unit)) (result : Errno → Int) : Sys Int := do
  match ← answered with
  | .ok _ => return fsNoError
  | .error e => return result e

/-- The results of `rmdir`, `unlink` and `rename`. -/
def missingOr (e : Errno) : Int := if e = .enoent then fsErrEnoentMapped else fsErrGenericMapped

def caseCreateDir (real : Path) : Sys Int :=
  caseCall (perform (.mkdir real)) fun e => if e = .eexist then fsNoError else fsErrGenericMapped

def caseRemoveDir (real : Path) : Sys Int := caseCall (perform (.rmdir real)) missingOr

def caseDelete (real : Path) : Sys Int := caseCall (perform (.unlink real)) missingOr

def caseRename (real real2 : Path) : Sys Int := caseCall (perform (.rename real real2)) missingOr

def caseXdelete (real : Path) : Sys Int := fsRmRecursive (fsXdeleteMaxDepth + 1) real

/-- `FS_OP_OPEN_EX` hands back eight bytes of the third segment. -/
def openExEcho (req : Request) : Bytes :=
  (req.segOf 2 8).elim (List.replicate 8 0) (·.take 8)

def caseRead (h want : Int) : Sys (List Bytes) := do
  match ← fsHandleRead h want with
  | none => return [leInt fsErrGenericMapped]
  | some bytes => return [leInt fsNoError, leInt bytes.length, bytes]

def caseWrite (h : Int) (bytes : Bytes) : Sys (List Bytes) := do
  match ← fsHandleWrite h bytes with
  | none => return [leInt fsErrGenericMapped, leInt 0]
  | some put => return [leInt fsNoError, leInt put]

def caseSeek (h offset whence : Int) : Sys Int := do
  match ← fsHandleSeek h offset whence with
  | none => return fsErrGenericMapped
  | some pos => return int32 pos

def caseGetFileSize (real : Path) : Sys (List Bytes) := do
  match ← perform (.stat real) with
  | .error _ => return [leInt fsErrEnoentMapped, leInt 0]
  | .ok st => return [leInt fsNoError, leInt st.size]

def caseGetFolderSize (real : Path) : Sys Int := do
  let total ← fsFolderSize (fsXdeleteMaxDepth + 1) real
  return if total < 0 then fsErrEnoentMapped else int32 total

def caseCount (real : Path) : Sys Int := do
  let cnt ← fsDirCount real
  return if cnt < 0 then fsErrEnoentMapped else cnt

/-- The directory and the pattern of a search: the last component when it has a wildcard. -/
def findPattern (real : Path) : Path × Path :=
  let last := (real.reverse.takeWhile (· != slash)).reverse
  if slash ∈ real ∧ last.any fun c => c == 0x2a || c == 0x3f then
    (real.take (real.length - last.length - 1), last.take 63)
  else (real, path "*")

def caseFindFirst (real : Path) : Sys Int := fsFindOpen (findPattern real).1 (findPattern real).2

def caseFindNext (fnmatch : Path → Path → Bool) (h : Int) : Sys (List Bytes) := do
  match ← fsFindNext fnmatch h with
  | none => return [leInt fsErrEnoentMapped]
  | some name => return [leInt fsNoError, leInt name.length, name]

/-- `'Z'` for the system drive. -/
def getDrive (type : Nat) : Int := if type = 4 then 0x5a else fsParamError

def caseGetClusterSize (drive : Nat) : Sys Int := do
  if drive < 0x51 ∨ drive > 0x5a then return fsErrGenericMapped
  else
    match ← perform (.statfs (fsDriveDir [UInt8.ofNat drive, colon, backslash])) with
    | .error _ => return fsErrGenericMapped
    | .ok (bsize, _) => return int32 bsize

def caseGetFileDetail (real : Path) : Sys (List Bytes) := do
  match ← perform (.stat real) with
  | .error _ => return [leInt fsErrEnoentMapped, List.replicate 24 0]
  | .ok st =>
      let writable ← perform (.access real)
      return [leInt fsNoError,
        le32 st.size ++ le32 (attributes st writable) ++ leInt st.mtime ++ List.replicate 12 0]

/-- The 21 words of a disk: what is not known of it is zero. -/
def diskInfo (bsize blocks : Nat) : Bytes :=
  (List.range 21).flatMap fun i =>
    le32 (match i with
      | 12 | 16 => 512
      | 13 => bsize / 512
      | 14 => blocks
      | _ => 0)

def caseGetDiskInfo (name : Path) : Sys (List Bytes) := do
  match ← perform (.statfs (fsDriveDir name)) with
  | .error _ => return [leInt fsErrGenericMapped, List.replicate 84 0]
  | .ok (bsize, blocks) => return [leInt fsNoError, diskInfo bsize blocks]

/-- A compound read answers its data only when it succeeded. -/
def caseCmptRead (creq : CmptReadReq) (real : Path) : Sys (List Bytes) := do
  let (rc, bytes) ← handleCmptRead creq real
  return dataSegs rc (if rc = fsNoError then bytes else [])

end Cases

/-- The answer of one segment. -/
def result (rc : Sys Int) : Option (Sys (List Bytes)) := some (do return [leInt (← rc)])

/-- The second stage: the segments of the answer, `none` when a segment that the operation needs
is missing. -/
def stage2 (fnmatch : Path → Path → Bool) (op : Op) (req : Request) (name real real2 : Path) :
    Option (Sys (List Bytes)) :=
  match op with
  | .getAttributes => result (caseGetAttributes real)
  | .open => result (fsHandleOpen real (req.wordOr 1))
  | .openEx => some (do return [leInt (← fsHandleOpen real (req.wordOr 1)), openExEcho req])
  | .close => do result (fsHandleClose (signed (word (← req.segOf 0 4) 0)))
  | .closeAll | .closeAll2 =>
      result (do
        let _ ← fsHandleCloseAll
        return fsNoError)
  | .seek => do
      let h ← req.segOf 0 4
      let off ← req.segOf 1 4
      let whence ← req.segOf 2 4
      result (caseSeek (signed (word h 0)) (signed (word off 0)) (signed (word whence 0)))
  | .read => do
      let h ← req.segOf 0 4
      let want ← req.segOf 1 4
      some (caseRead (signed (word h 0)) (signed (word want 0)))
  | .write => do
      let bytes ← req.seg 1
      let h ← req.segOf 0 4
      some (caseWrite (signed (word h 0)) bytes)
  | .createDir => result (caseCreateDir real)
  | .removeDir => result (caseRemoveDir real)
  | .delete => result (caseDelete real)
  | .xdelete => result (caseXdelete real)
  | .rename | .move => result (caseRename real real2)
  | .restore => result (return fsErrEnoentMapped)
  | .getFileSize => some (caseGetFileSize real)
  | .getFolderSize => result (caseGetFolderSize real)
  | .count => result (caseCount real)
  | .findFirst => result (caseFindFirst real)
  | .findNext => do some (caseFindNext fnmatch (signed (word (← req.segOf 0 4) 0)))
  | .findClose => do result (fsFindClose (signed (word (← req.segOf 0 4) 0)))
  | .getDrive => result (return getDrive (req.wordOr 0))
  | .getClusterSize => result (caseGetClusterSize (req.wordOr 0))
  | .getFileDetail => some (caseGetFileDetail real)
  | .getDiskInfo => some (caseGetDiskInfo name)
  | .otpQueryLength | .otpRead => result (return fsErrEnoentMapped)
  | .otpWrite | .otpLock => result (return fsErrGenericMapped)
  | .cmptRead => do some (caseCmptRead (.ofBytes (← req.segOf 1 cmptReadSize)) real)
  | .cmptWrite => do
      let wr ← req.segOf 1 cmptWriteSize
      result (do return (← handleCmptWrite (.ofBytes wr) real).1)
  | .lf | .cdf | .sdf => result (return 0)
  | .uk => result (return 1)
  | .binRegion => result (return fsParamError)

/-- What `main` does with a parsed request: **the operation's own case, on the request's own
segments**. -/
def dispatch (fnmatch : Path → Path → Bool) (hdr : Header) (op : Op) (req : Request) :
    Sys Bytes :=
  let notServed : Sys Bytes := return buildResultResp hdr req.opId fsErrEnoentMapped
  match stage1 op req with
  | .unusable => notServed
  | .refused rc => return buildResultResp hdr req.opId rc
  | .found name real real2 =>
      match stage2 fnmatch op req name real real2 with
      | none => notServed
      | some answer => do return buildResp hdr req.opId (← answer)

/-! ### The loop of `main` -/

/-- The first legacy test: the word that a compound write has its bits in. -/
def sniffsWrite (payload : Bytes) : Bool :=
  decide (cmptWriteSize ≤ payload.length) && (word payload 0).testBit 5

/-- The second one, for a compound read. -/
def sniffsRead (payload : Bytes) : Bool :=
  decide (0x30 + cmptReadSize ≤ payload.length) && (word payload 0x30).testBit 3

/-- The file of the legacy paths. -/
def unknownFile : Path :=
  match pathResolve (path "/nvcfg/unknown") pathMax with
  | .ok real => real
  | .error _ => path "/mnt/vendor/nvcfg/unknown"

/-- The datagrams that `main` drops. -/
def dropped (datagram : Bytes) : Bool :=
  decide (datagram.length < headerSize) ||
    decide ((Header.ofBytes datagram).channel ≠ ccciFsChannelRx) ||
    (Header.ofBytes datagram).continues

/-- One turn of the loop: the answer to a datagram, `none` when it is dropped. -/
def serve (fnmatch : Path → Path → Bool) (datagram : Bytes) : Sys (Option Bytes) := do
  if datagram.length < headerSize then return none
  else
    let hdr := Header.ofBytes datagram
    let payload := datagram.drop headerSize
    if hdr.channel ≠ ccciFsChannelRx then return none
    else if hdr.continues then return none
    else
      let reqOpId := if payload.length ≥ 4 then word payload 0 else 0
      if sniffsWrite payload then
        let (rc, _) ← handleCmptWrite (.ofBytes payload) unknownFile
        return some (buildResultResp hdr reqOpId rc)
      else if sniffsRead payload then
        return some (buildResp hdr reqOpId
          (← caseCmptRead (.ofBytes (payload.drop 0x30)) unknownFile))
      else
        match fsParseReq payload with
        | none => return some (buildResultResp hdr reqOpId fsErrEnoentMapped)
        | some req =>
            match Op.ofId req.opId with
            | none => return some (buildResultResp hdr req.opId fsErrEnoentMapped)
            | some op => return some (← dispatch fnmatch hdr op req)

/-- A datagram on the channel of the file service. -/
def datagramOf (payload : List Nat) (data : Bytes) : Bytes :=
  [0, 0, 14, 0].flatMap le32 ++ payload.flatMap le32 ++ data

end Mindone.Fsd
