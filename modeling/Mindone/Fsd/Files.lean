import Mindone.Fsd.Wire
import Mindone.Lib.Dialogue

/-!
# Mindone.Fsd.Files

The file-system calls of the service and the tables that it keeps between requests: the handles
of opened files, the searches, and the handles of compound writes. A handler is a program of
type `Sys`: it makes calls, reads and changes the tables, and its meaning covers every answer
of the file system. A directory stream comes with the names that it will yield.

The build is the one that allows writes (`MINDONE_FS_ALLOW_WRITES`) and refuses to write fuses.
-/

namespace Mindone.Fsd

open Mindone.Lib

/-! ### Calls -/

inductive Errno
  | enoent
  | eacces
  | emfile
  | eexist
  | other (code : Nat)
  deriving DecidableEq

/-- The flags of `open`; the mode is always `0660`. -/
structure OpenFlags where
  write : Bool
  create : Bool := false
  truncate : Bool := false
  nonblock : Bool := false
  deriving DecidableEq

structure Stat where
  size : Nat
  isDir : Bool
  isReg : Bool
  mtime : Int
  deriving DecidableEq

/-- A directory stream with the names it has still to yield. -/
structure Dir where
  id : Nat
  names : List Path
  deriving DecidableEq

inductive Call
  | open (file : Path) (flags : OpenFlags)
  | close (fd : Nat)
  | lseek (fd : Nat) (offset whence : Int)
  | read (fd count : Nat)
  | write (fd : Nat) (bytes : Bytes)
  | stat (file : Path)
  | lstat (file : Path)
  /-- `access` with `W_OK` -/
  | access (file : Path)
  | mkdir (dir : Path)
  | rmdir (dir : Path)
  | unlink (file : Path)
  | rename (old new : Path)
  | opendir (dir : Path)
  | closedir (dir : Nat)
  | statfs (dir : Path)
  deriving DecidableEq

/-- What the file system answers: no more is read than was asked for, and no more is written
than was given. -/
abbrev Answer : Call → Type
  | .open _ _ => Except Errno Nat
  | .close _ | .closedir _ => Unit
  | .lseek _ _ _ => Except Errno Nat
  | .read _ count => Except Errno { bytes : Bytes // bytes.length ≤ count }
  | .write _ bytes => Except Errno { n : Nat // n ≤ bytes.length }
  | .stat _ | .lstat _ => Except Errno Stat
  | .access _ => Bool
  | .mkdir _ | .rmdir _ | .unlink _ | .rename _ _ => Except Errno Unit
  | .opendir _ => Except Errno Dir
  -- the size of a block, and their number
  | .statfs _ => Except Errno (Nat × Nat)

instance (c : Call) : Nonempty (Answer c) := by
  cases c with
  | close _ => exact ⟨()⟩
  | closedir _ => exact ⟨()⟩
  | access _ => exact ⟨true⟩
  | _ => exact ⟨.error .enoent⟩

/-- A file system that does what it is asked for, with files full of zeros. -/
def succeeds : Dialogue.Environment Call Answer Unit := fun c _ =>
  (match c with
    | .open _ _ => .ok 0
    | .close _ | .closedir _ => ()
    | .lseek _ _ _ => .ok 0
    | .read _ count => .ok ⟨List.replicate count 0, Nat.le_of_eq List.length_replicate⟩
    | .write _ bytes => .ok ⟨bytes.length, Nat.le_refl _⟩
    | .stat _ | .lstat _ => .ok ⟨0, false, true, 0⟩
    | .access _ => true
    | .mkdir _ | .rmdir _ | .unlink _ | .rename _ _ => .ok ()
    | .opendir _ => .ok ⟨0, []⟩
    | .statfs _ => .ok (0, 0), ())

/-! ### Tables -/

def fsHandleMax : Nat := 32
def fsFindMax : Nat := 8
def maxOpenHandles : Nat := 32

/-- `struct fs_find_slot`, while it is in use. -/
structure Find where
  dir : Dir
  pattern : Path
  realDir : Path
  deriving DecidableEq

/-- `g_fs_handles`, `g_fs_finds` and the descriptors of `g_handles`. -/
structure Tables where
  fsHandles : Fin fsHandleMax → Option Nat
  fsFinds : Fin fsFindMax → Option Find
  handles : Fin maxOpenHandles → Option Nat

def Tables.init : Tables := ⟨fun _ => none, fun _ => none, fun _ => none⟩

/-- A handler. -/
abbrev Sys := StateT Tables (Dialogue Call Answer)

def perform (c : Call) : Sys (Answer c) := fun t => Dialogue.call c fun answer => .ret (answer, t)

section Rules

variable {α β : Type} (t : Tables)

@[simp] theorem bind_apply (x : Sys α) (f : α → Sys β) :
    (x >>= f) t = x t >>= fun r => f r.1 r.2 := rfl

@[simp] theorem pure_apply (a : α) : (pure a : Sys α) t = .ret (a, t) := rfl

@[simp] theorem get_apply : (get : Sys Tables) t = .ret (t, t) := rfl

@[simp] theorem modify_apply (f : Tables → Tables) : (modify f : Sys Unit) t = .ret ((), f t) := rfl

@[simp] theorem perform_apply (c : Call) :
    perform c t = .call c fun answer => .ret (answer, t) := rfl

end Rules

/-- The entry of a table that a handle names; the first entry is never handed out. -/
def entry {n : Nat} {α : Type} (table : Fin n → Option α) (h : Int) : Option (Fin n × α) :=
  if hn : 0 < h ∧ h.toNat < n then (table ⟨h.toNat, hn.2⟩).map (⟨h.toNat, hn.2⟩, ·) else none

/-- The first free entry behind the one that is never handed out. -/
def firstFree {n : Nat} {α : Type} (table : Fin n → Option α) : Option (Fin n) :=
  (List.finRange n).find? fun i => decide (0 < i.val) && (table i).isNone

/-! ### Opened files -/

def fsOpenFlags (modemFlags : Nat) : OpenFlags :=
  let f : OpenFlags := ⟨!modemFlags.testBit 8, false, false, false⟩
  let f := if modemFlags.testBit 16 then ⟨true, true, false, false⟩ else f
  let f := if modemFlags.testBit 17 then ⟨true, true, true, false⟩ else f
  if modemFlags.testBit 28 then { f with nonblock := true } else f

def fsHandleOpen (real : Path) (modemFlags : Nat) : Sys Int := do
  match firstFree (← get).fsHandles with
  | none => return fsErrEmfileMapped
  | some i =>
      match ← perform (.open real (fsOpenFlags modemFlags)) with
      | .error e => return if e = .enoent then fsErrEnoentMapped else fsErrGenericMapped
      | .ok fd =>
          modify fun t => { t with fsHandles := Function.update t.fsHandles i (some fd) }
          return i.val

def fsHandleClose (h : Int) : Sys Int := do
  match entry (← get).fsHandles h with
  | none => return fsParamError
  | some (i, fd) =>
      perform (.close fd)
      modify fun t => { t with fsHandles := Function.update t.fsHandles i none }
      return fsNoError

/-- `fs_handle_read`, with the count as it is on the wire: a negative one is a large
`size_t`. -/
def fsHandleRead (h want : Int) : Sys (Option Bytes) := do
  match entry (← get).fsHandles h with
  | none => return none
  | some (_, fd) =>
      let count := if want < 0 ∨ want > ioBufSize then ioBufSize else want.toNat
      match ← perform (.read fd count) with
      | .error _ => return none
      | .ok bytes => return some bytes.val

def fsHandleWrite (h : Int) (bytes : Bytes) : Sys (Option Nat) := do
  match entry (← get).fsHandles h with
  | none => return none
  | some (_, fd) =>
      match ← perform (.write fd bytes) with
      | .error _ => return none
      | .ok n => return some n.val

def fsHandleSeek (h offset whence : Int) : Sys (Option Nat) := do
  match entry (← get).fsHandles h with
  | none => return none
  | some (_, fd) =>
      if whence ≠ 0 ∧ whence ≠ 1 ∧ whence ≠ 2 then return none
      else
        match ← perform (.lseek fd offset whence) with
        | .error _ => return none
        | .ok pos => return some pos

/-- The loop of `fs_handle_close_all`. -/
def closeAllLoop : List (Fin fsHandleMax) → Sys Nat
  | [] => return 0
  | i :: rest => do
      match (← get).fsHandles i with
      | none => closeAllLoop rest
      | some fd =>
          perform (.close fd)
          modify fun t => { t with fsHandles := Function.update t.fsHandles i none }
          return (← closeAllLoop rest) + 1

def fsHandleCloseAll : Sys Nat :=
  closeAllLoop ((List.finRange fsHandleMax).filter fun i => decide (0 < i.val))

/-! ### Directories -/

/-- The names that every loop over a directory leaves out. -/
def special (name : Path) : Bool := name == path "." || name == path ".."

/-- `dir/name`, when it fits into a buffer. -/
def childOf (dir name : Path) : Option Path :=
  let child := dir ++ [slash] ++ name
  if child.length < pathMax then some child else none

def fsFindOpen (realDir pattern : Path) : Sys Int := do
  match firstFree (← get).fsFinds with
  | none => return fsErrEmfileMapped
  | some i =>
      match ← perform (.opendir realDir) with
      | .error e => return if e = .enoent then fsErrEnoentMapped else fsErrGenericMapped
      | .ok dir =>
          let pattern := if pattern = [] then path "*" else pattern
          let slot : Find := ⟨dir, pattern.take 63, realDir.take 511⟩
          modify fun t => { t with fsFinds := Function.update t.fsFinds i (some slot) }
          return i.val

def fsFindClose (h : Int) : Sys Int := do
  match entry (← get).fsFinds h with
  | none => return fsParamError
  | some (i, slot) =>
      perform (.closedir slot.dir.id)
      modify fun t => { t with fsFinds := Function.update t.fsFinds i none }
      return fsNoError

/-- The loop of `fs_find_next`: the name that matches, and the names behind it. -/
def findNextLoop (fnmatch : Path → Path → Bool) (pattern : Path) :
    List Path → Option Path × List Path
  | [] => (none, [])
  | name :: rest =>
      if special name || !fnmatch pattern name then findNextLoop fnmatch pattern rest
      else (some name, rest)

/-- `fs_find_next`; what `stat` finds is not answered. -/
def fsFindNext (fnmatch : Path → Path → Bool) (h : Int) : Sys (Option Path) := do
  match entry (← get).fsFinds h with
  | none => return none
  | some (i, slot) =>
      let (found, rest) := findNextLoop fnmatch slot.pattern slot.dir.names
      let slot := { slot with dir := { slot.dir with names := rest } }
      modify fun t => { t with fsFinds := Function.update t.fsFinds i (some slot) }
      match found with
      | none => return none
      | some name =>
          match childOf slot.realDir name with
          | none => return some (name.take 255)
          | some full =>
              let _ ← perform (.stat full)
              return some (name.take 255)

def fsXdeleteMaxDepth : Nat := 8

/-- The loop of `fs_rm_recursive`. -/
def rmLoop (rm : Path → Sys Int) (dir : Path) : List Path → Sys Unit
  | [] => return ()
  | name :: rest => do
      if special name then rmLoop rm dir rest
      else
        match childOf dir name with
        | none => rmLoop rm dir rest
        | some child =>
            let _ ← rm child
            rmLoop rm dir rest

/-- `fs_rm_recursive`, with the number of levels that are left. -/
def fsRmRecursive : Nat → Path → Sys Int
  | 0, _ => return fsErrGenericMapped
  | left + 1, file => do
      match ← perform (.lstat file) with
      | .error _ => return fsErrEnoentMapped
      | .ok st =>
          if !st.isDir then
            match ← perform (.unlink file) with
            | .ok _ => return fsNoError
            | .error _ => return fsErrGenericMapped
          else
            match ← perform (.opendir file) with
            | .error _ => return fsErrGenericMapped
            | .ok dir =>
                rmLoop (fsRmRecursive left) file dir.names
                perform (.closedir dir.id)
                match ← perform (.rmdir file) with
                | .ok _ => return fsNoError
                | .error _ => return fsErrGenericMapped

/-- The loop of `fs_folder_size`. -/
def sizeLoop (size : Path → Sys Int) (dir : Path) : List Path → Int → Sys Int
  | [], total => return total
  | name :: rest, total => do
      if special name then sizeLoop size dir rest total
      else
        match childOf dir name with
        | none => sizeLoop size dir rest total
        | some child =>
            match ← perform (.lstat child) with
            | .error _ => sizeLoop size dir rest total
            | .ok st =>
                if st.isDir then
                  let sub ← size child
                  sizeLoop size dir rest (if sub > 0 then total + sub else total)
                else if st.isReg then sizeLoop size dir rest (total + st.size)
                else sizeLoop size dir rest total

/-- `fs_folder_size`, with the number of levels that are left. -/
def fsFolderSize : Nat → Path → Sys Int
  | 0, _ => return 0
  | left + 1, dir => do
      match ← perform (.opendir dir) with
      | .error _ => return -1
      | .ok stream =>
          let total ← sizeLoop (fsFolderSize left) dir stream.names 0
          perform (.closedir stream.id)
          return total

def fsDirCount (dir : Path) : Sys Int := do
  match ← perform (.opendir dir) with
  | .error _ => return -1
  | .ok stream =>
      perform (.closedir stream.id)
      return (stream.names.filter fun name => !special name).length

end Mindone.Fsd
