import Mindone.Fingerprint.LockoutRecord
import Mindone.Lib.Program

/-!
# Mindone.Fingerprint.LockoutStore

The lockout store (`bridges/fingerprint/LockoutStore.h`). A user has two files, a record and a
marker; `save` writes a pending marker, the record and the final marker, each to a temporary file
that is renamed over the old one. Every file operation may fail, and the machine may stop before
any of them; what a rename did stays.

`save` leaves the files behind some number of its renames (`save_ends`), and **that number decides
what a later `load` accepts** (`Told.load`): a record counts with its final marker only, or when it
has all 20 failures.
-/

namespace Mindone.Fingerprint

open Mindone.Lib

/-! ### Files -/

/-- The names of the files, without the user. -/
inductive Name
  | seen
  | lockout
  deriving DecidableEq

/-- How the next file operation ends: `part n` is for reads and writes of `n` bytes at most. -/
inductive Outcome
  | ok
  | fails
  | interrupted
  | part (n : Nat)
  deriving DecidableEq

/-- The directory: what the names and their temporary files stand for. `renames` counts the renames
that took effect; the machine stops when there are no `outcomes` left. -/
structure Disk where
  file : Name → Option (List Byte)
  temporary : Name → Option (List Byte)
  renames : Nat
  outcomes : List Outcome

/-- File operations; the only exception is that the machine stops. -/
abbrev Io := EStateM Unit Disk

/-- The outcome of the next operation. -/
def next : Io Outcome := do
  let disk ← get
  match disk.outcomes with
  | [] => throw ()
  | outcome :: outcomes => do
      set { disk with outcomes := outcomes }
      return outcome

/-- An operation that does something or fails. -/
def attempt (effect : Disk → Disk) : Io Bool := do
  match ← next with
  | .ok => do
      modify effect
      return true
  | _ => return false

def Disk.setTemporary (disk : Disk) (name : Name) (bytes : Option (List Byte)) : Disk :=
  { disk with temporary := Function.update disk.temporary name bytes }

/-- `renameat` from the temporary file. -/
def Disk.rename (disk : Disk) (name : Name) : Disk :=
  { disk with
    file := Function.update disk.file name (disk.temporary name)
    temporary := Function.update disk.temporary name none
    renames := disk.renames + 1 }

/-- How many bytes a read or write takes of those wanted; none when it fails, and it is made
again when it was interrupted. -/
def Outcome.count (wanted : Nat) : Outcome → Option Nat
  | .ok => some wanted
  | .part n => some (min n wanted)
  | .interrupted | .fails => none

/-- The loop of writes; the bytes that are left. Each turn takes an outcome, so that the machine
stops before the turns run out. -/
def writeLoop (name : Name) : Nat → List Byte → Io (List Byte)
  | 0, _ => throw ()
  | turns + 1, bytes =>
      if bytes = [] then pure []
      else do
        let outcome ← next
        if outcome = .interrupted then writeLoop name turns bytes
        else
          let count := (outcome.count bytes.length).getD 0
          if count = 0 then pure bytes
          else do
            modify fun disk => disk.setTemporary name
              (some ((disk.temporary name).getD [] ++ bytes.take count))
            writeLoop name turns (bytes.drop count)

/-- `&&`: the operation is made when those before it succeeded. -/
def andThen (ok : Bool) (operation : Io Bool) : Io Bool := if ok then operation else pure false

/-- `fsync`, if the whole record was written, and `close`. -/
def syncAndClose (left : List Byte) : Io Bool := do
  let synced ← andThen (left.isEmpty) (attempt id)
  let closed ← attempt id
  pure (synced && closed)

/-- `renameat`, and the `fsync` of the directory. -/
def renameOver (name : Name) : Io Bool := do
  let renamed ← attempt (·.rename name)
  andThen renamed (attempt id)

/-- `writeRecord` -/
def writeRecord (name : Name) (record : Record) : Io Bool := do
  let opened ← attempt fun disk => disk.setTemporary name (some [])
  if !opened then pure false
  else do
    let disk ← get
    let left ← writeLoop name (disk.outcomes.length + 1) record.bytes
    let ok ← syncAndClose left
    let ok ← andThen ok (renameOver name)
    if ok then pure true
    else do
      let _ ← attempt fun disk => disk.setTemporary name none
      pure false

/-- What `readRecord` returns. -/
inductive Reading
  | enoent
  | failed
  | record (record : Record)

/-- The loop of reads: the bytes that are read of those wanted, and what is left of the file. A read
gives at least one byte unless the file is at its end. -/
def readLoop : Nat → Nat → List Byte → Io (List Byte × List Byte)
  | 0, _, _ => throw ()
  | turns + 1, wanted, file =>
      if wanted = 0 then pure ([], file)
      else do
        let outcome ← next
        if outcome = .interrupted then readLoop turns wanted file
        else
          match outcome.count wanted with
          | none => pure ([], file)
          | some n =>
              let got := file.take (max n 1)
              if got = [] then pure ([], file)
              else do
                let (used, left) ← readLoop turns (wanted - got.length) (file.drop (max n 1))
                pure (got ++ used, left)

/-- The read behind the record: whether the file is at its end. -/
def readTrailing : Nat → List Byte → Io Bool
  | 0, _ => throw ()
  | turns + 1, file => do
      let outcome ← next
      if outcome = .interrupted then readTrailing turns file
      else pure ((outcome.count 1).isSome && file.isEmpty)

/-- `readRecord` -/
def readRecord (name : Name) : Io Reading := do
  let opened ← attempt id
  let disk ← get
  match opened, disk.file name with
  | false, _ => pure .failed
  | true, none => pure .enoent
  | true, some bytes => do
      let (used, left) ← readLoop (disk.outcomes.length + 1) 32 bytes
      let disk ← get
      let ended ← readTrailing (disk.outcomes.length + 1) left
      let _ ← attempt id
      if h : used.length = 32 ∧ ended then pure (.record ⟨used, h.1⟩) else pure .failed

section Store

variable (userId : BitVec 32)

/-- `save` -/
def save (state : State) : Io Bool := do
  let opened ← attempt id
  if !opened then pure false
  else do
    let pending ← writeRecord .seen (encode userId .empty kPendingMagic)
    let written ← andThen pending (writeRecord .lockout (encode userId state kMagic))
    let ok ← andThen written (writeRecord .seen (encode userId .empty kMarkerMagic))
    let _ ← attempt id
    pure ok

/-- `markerResult == 0 && marker == expected` -/
def Reading.isExpected : Reading → Bool
  | .record marker => decide (marker = encode userId .empty kMarkerMagic)
  | _ => false

/-- `load` between opening and closing the directory, from what the two files are read as. -/
def accept (marker record : Reading) : Io (Option State) :=
  match marker, record with
  | .enoent, .enoent => do
      let seen ← writeRecord .seen (encode userId .empty kMarkerMagic)
      let ok ← andThen seen (writeRecord .lockout (encode userId .empty kMagic))
      pure (if ok then some State.empty else none)
  | marker, .record record =>
      match decode userId record with
      | none => pure none
      | some state =>
          pure (if marker.isExpected userId || state.failed == 20 then some state else none)
  | _, _ => pure none

/-- `load`: the state, when it returns `true`. -/
def load : Io (Option State) := do
  let opened ← attempt id
  if !opened then pure none
  else do
    let marker ← readRecord .seen
    let record ← readRecord .lockout
    let result ← accept userId marker record
    let _ ← attempt id
    pure result

end Store

/-! ### What the operations leave -/

/-- The files are as they were. -/
def Disk.Same (disk disk' : Disk) : Prop :=
  disk'.file = disk.file ∧ disk'.renames = disk.renames

/-- One file was replaced. -/
def Disk.Replaced (disk : Disk) (name : Name) (record : Record) (disk' : Disk) : Prop :=
  disk'.file = Function.update disk.file name (some record.bytes) ∧
    disk'.renames = disk.renames + 1

theorem Disk.Same.trans {a b c : Disk} (hab : a.Same b) (hbc : b.Same c) : a.Same c :=
  ⟨hbc.1.trans hab.1, hbc.2.trans hab.2⟩

theorem Disk.Same.replaced {a b c : Disk} {name : Name} {record : Record} (hab : a.Same b)
    (hbc : b.Replaced name record c) : a.Replaced name record c :=
  ⟨hab.1 ▸ hbc.1, hab.2 ▸ hbc.2⟩

theorem Disk.Replaced.same {a b c : Disk} {name : Name} {record : Record}
    (hab : a.Replaced name record b) (hbc : b.Same c) : a.Replaced name record c :=
  ⟨hbc.1.trans hab.1, hbc.2.trans hab.2⟩

section Operations

variable {disk : Disk} {name : Name} {record : Record}

theorem ends_next {Q : Outcome → Disk → Prop} {E : Unit → Disk → Prop} (hcut : E () disk)
    (hnext : ∀ outcome outcomes, Q outcome { disk with outcomes := outcomes }) :
    Ends next disk Q E := by
  unfold next
  rw [ends_bind, ends_get]
  split
  · exact (ends_throw _).mpr hcut
  · rw [ends_bind, ends_set, ends_pure]
    exact hnext _ _

theorem ends_attempt {effect : Disk → Disk} {Q : Bool → Disk → Prop} {E : Unit → Disk → Prop}
    (hcut : E () disk) (hfails : ∀ outcomes, Q false { disk with outcomes := outcomes })
    (hok : ∀ outcomes, Q true (effect { disk with outcomes := outcomes })) :
    Ends (attempt effect) disk Q E := by
  unfold attempt
  rw [ends_bind]
  refine ends_next hcut fun outcome outcomes => ?_
  split
  · rw [ends_bind, ends_modify, ends_pure]
    exact hok outcomes
  · exact (ends_pure _).mpr (hfails outcomes)

/-- The loop of writes only appends to the temporary file. -/
theorem writeLoop_ends (turns : Nat) {bytes written : List Byte}
    (htemporary : disk.temporary name = some written) :
    Ends (writeLoop name turns bytes) disk
      (fun left disk' => disk.Same disk' ∧
        ∃ written', disk'.temporary name = some written' ∧ written' ++ left = written ++ bytes)
      fun _ => disk.Same := by
  induction turns generalizing disk bytes written with
  | zero => exact (ends_throw _).mpr ⟨rfl, rfl⟩
  | succ turns ih =>
      unfold writeLoop
      split
      · rename_i hdone
        refine (ends_pure _).mpr ⟨⟨rfl, rfl⟩, written, htemporary, ?_⟩
        rw [hdone]
      rw [ends_bind]
      refine ends_next ⟨rfl, rfl⟩ fun outcome outcomes => ?_
      split
      · exact ih htemporary
      dsimp only
      generalize (outcome.count bytes.length).getD 0 = count
      split
      · exact (ends_pure _).mpr ⟨⟨rfl, rfl⟩, written, htemporary, rfl⟩
      rw [ends_bind, ends_modify]
      refine (ih (Function.update_self ..)).mono (fun left disk' hleft => ?_) fun _ _ hcut => hcut
      obtain ⟨hsame, written', htemporary', hwritten'⟩ := hleft
      refine ⟨hsame, written', htemporary', ?_⟩
      dsimp only at hwritten'
      rw [hwritten', htemporary, Option.getD_some, List.append_assoc, List.take_append_drop]

/-- `fsync` and `close` leave the files, the temporary ones too. -/
theorem syncAndClose_ends (left : List Byte) : Ends (syncAndClose left) disk
    (fun ok disk' => disk.Same disk' ∧ disk'.temporary = disk.temporary ∧ (ok = true → left = []))
    fun _ => disk.Same := by
  have hclose : ∀ synced : Bool, (synced = true → left = []) → ∀ outcomes,
      Ends (do
        let closed ← attempt id
        pure (synced && closed)) { disk with outcomes := outcomes }
        (fun ok disk' => disk.Same disk' ∧ disk'.temporary = disk.temporary ∧ (ok = true → left = []))
        fun _ => disk.Same := by
    intro synced hsynced outcomes
    have hand : ∀ closed, (synced && closed) = true → left = [] :=
      fun closed hboth => hsynced (Bool.and_eq_true_iff.mp hboth).1
    rw [ends_bind]
    exact ends_attempt ⟨rfl, rfl⟩ (fun _ => (ends_pure _).mpr ⟨⟨rfl, rfl⟩, rfl, hand false⟩)
      fun _ => (ends_pure _).mpr ⟨⟨rfl, rfl⟩, rfl, hand true⟩
  unfold syncAndClose andThen
  rw [ends_bind]
  split
  · rename_i hleft
    exact ends_attempt ⟨rfl, rfl⟩ (fun _ => hclose false nofun _) fun _ =>
      hclose true (fun _ => List.isEmpty_iff.mp hleft) _
  · exact (ends_pure _).mpr (hclose false nofun disk.outcomes)

theorem renameOver_ends (htemporary : disk.temporary name = some record.bytes) :
    Ends (renameOver name) disk
      (fun ok disk' => (disk.Same disk' ∧ ok = false) ∨ disk.Replaced name record disk')
      (fun _ disk' => disk.Same disk' ∨ disk.Replaced name record disk') := by
  unfold renameOver
  rw [ends_bind]
  refine ends_attempt (.inl ⟨rfl, rfl⟩) (fun _ => (ends_pure _).mpr (.inl ⟨⟨rfl, rfl⟩, rfl⟩))
    fun outcomes => ?_
  have hreplaced : disk.Replaced name record
      (Disk.rename { disk with outcomes := outcomes } name) := by
    refine ⟨?_, rfl⟩
    show Function.update disk.file name (disk.temporary name) = _
    rw [htemporary]
  exact ends_attempt (.inr hreplaced) (fun _ => .inr hreplaced) fun _ => .inr hreplaced

/-- **`writeRecord` replaces its file or leaves it**, and returns `true` only when it has. -/
theorem writeRecord_ends : Ends (writeRecord name record) disk
    (fun ok disk' => (disk.Same disk' ∧ ok = false) ∨ disk.Replaced name record disk')
    (fun _ disk' => disk.Same disk' ∨ disk.Replaced name record disk') := by
  -- what happens behind the rename, or instead of it
  have hfinish : ∀ ok disk₁, ((disk.Same disk₁ ∧ ok = false) ∨ disk.Replaced name record disk₁) →
      Ends (if ok = true then pure true
        else do
          let _ ← attempt fun disk => disk.setTemporary name none
          pure false : Io Bool) disk₁
        (fun ok disk' => (disk.Same disk' ∧ ok = false) ∨ disk.Replaced name record disk')
        (fun _ disk' => disk.Same disk' ∨ disk.Replaced name record disk') := by
    intro ok disk₁ hdisk₁
    have hcut : disk.Same disk₁ ∨ disk.Replaced name record disk₁ := hdisk₁.imp_left And.left
    have hfalse : (disk.Same disk₁ ∧ false = false) ∨ disk.Replaced name record disk₁ :=
      hcut.imp_left fun hsame => ⟨hsame, rfl⟩
    split
    · rename_i hok
      refine (ends_pure _).mpr (.inr (hdisk₁.resolve_left fun hsame => ?_))
      rw [hok] at hsame
      cases hsame.2
    · rw [ends_bind]
      exact ends_attempt hcut (fun _ => (ends_pure _).mpr hfalse) fun _ => (ends_pure _).mpr hfalse
  unfold writeRecord
  rw [ends_bind]
  refine ends_attempt (.inl ⟨rfl, rfl⟩)
    (fun _ => (ends_pure _).mpr (.inl ⟨⟨rfl, rfl⟩, rfl⟩)) fun outcomes => ?_
  have htemporary : (Disk.setTemporary { disk with outcomes := outcomes } name
      (some [])).temporary name = some [] := Function.update_self ..
  have hsame : disk.Same (Disk.setTemporary { disk with outcomes := outcomes } name (some [])) :=
    ⟨rfl, rfl⟩
  generalize Disk.setTemporary { disk with outcomes := outcomes } name (some []) = opened
    at htemporary hsame
  rw [Bool.not_true, if_neg Bool.false_ne_true, ends_bind, ends_get, ends_bind]
  refine (writeLoop_ends _ htemporary).mono (fun left written hleft => ?_)
    fun _ _ hcut => .inl (hsame.trans hcut)
  obtain ⟨hsame₁, bytes, hbytes, hwritten⟩ := hleft
  rw [ends_bind]
  refine (syncAndClose_ends left).mono (fun synced closed hsynced => ?_)
    fun _ _ hcut => .inl ((hsame.trans hsame₁).trans hcut)
  obtain ⟨hsame₂, htemporary₂, hall⟩ := hsynced
  have hsame₂ := (hsame.trans hsame₁).trans hsame₂
  unfold andThen
  rw [ends_bind]
  split
  · -- the file is renamed only when all of the record is in it
    rename_i hok
    rw [hall hok, List.append_nil, List.nil_append] at hwritten
    have hfull : closed.temporary name = some record.bytes := by
      rw [htemporary₂, hbytes, hwritten]
    refine (renameOver_ends hfull).mono (fun ok disk' hrenamed => hfinish ok disk' ?_)
      fun _ _ hcut => ?_
    · exact hrenamed.imp (fun h => ⟨hsame₂.trans h.1, h.2⟩) hsame₂.replaced
    · exact hcut.imp hsame₂.trans hsame₂.replaced
  · exact (ends_pure _).mpr (hfinish false closed (.inl ⟨hsame₂, rfl⟩))

/-- The loop of reads takes the file apart. -/
theorem readLoop_ends (turns wanted : Nat) (file : List Byte) :
    Ends (readLoop turns wanted file) disk
      (fun result disk' => disk.Same disk' ∧ result.1 ++ result.2 = file) fun _ => disk.Same := by
  induction turns generalizing disk wanted file with
  | zero => exact (ends_throw _).mpr ⟨rfl, rfl⟩
  | succ turns ih =>
      unfold readLoop
      split
      · exact (ends_pure _).mpr ⟨⟨rfl, rfl⟩, rfl⟩
      rw [ends_bind]
      refine ends_next ⟨rfl, rfl⟩ fun outcome outcomes => ?_
      split
      · exact ih wanted file
      split
      · exact (ends_pure _).mpr ⟨⟨rfl, rfl⟩, rfl⟩
      · rename_i n _
        dsimp only
        split
        · exact (ends_pure _).mpr ⟨⟨rfl, rfl⟩, rfl⟩
        · rw [ends_bind]
          refine (ih _ (file.drop (max n 1))).mono (fun result disk' hresult => ?_)
            fun _ _ hcut => hcut
          refine (ends_pure _).mpr ⟨hresult.1, ?_⟩
          show file.take (max n 1) ++ result.1 ++ result.2 = file
          rw [List.append_assoc, hresult.2, List.take_append_drop]

theorem readTrailing_ends (turns : Nat) (file : List Byte) :
    Ends (readTrailing turns file) disk
      (fun ended disk' => disk.Same disk' ∧ (ended = true → file = [])) fun _ => disk.Same := by
  induction turns generalizing disk with
  | zero => exact (ends_throw _).mpr ⟨rfl, rfl⟩
  | succ turns ih =>
      unfold readTrailing
      rw [ends_bind]
      refine ends_next ⟨rfl, rfl⟩ fun outcome outcomes => ?_
      split
      · exact ih
      · refine (ends_pure _).mpr ⟨⟨rfl, rfl⟩, fun hended => ?_⟩
        exact List.isEmpty_iff.mp (Bool.and_eq_true_iff.mp hended).2

/-- What a file must be for what it is read as. -/
def Reading.Of (bytes : Option (List Byte)) : Reading → Prop
  | .enoent => bytes = none
  | .failed => True
  | .record record => bytes = some record.bytes

/-- **A file is read as a record only when it is one**: not when it is shorter or longer. -/
theorem readRecord_ends : Ends (readRecord name) disk
    (fun reading disk' => disk.Same disk' ∧ reading.Of (disk.file name)) fun _ => disk.Same := by
  unfold readRecord
  rw [ends_bind]
  refine ends_attempt ⟨rfl, rfl⟩ (fun outcomes => ?_) fun outcomes => ?_
  · rw [ends_bind, ends_get]
    exact (ends_pure _).mpr ⟨⟨rfl, rfl⟩, trivial⟩
  · rw [ends_bind, ends_get]
    dsimp only [id]
    cases hfile : disk.file name with
    | none => exact (ends_pure _).mpr ⟨⟨rfl, rfl⟩, rfl⟩
    | some bytes =>
        dsimp only
        rw [ends_bind]
        refine (readLoop_ends _ 32 bytes).mono (fun result disk₁ hresult => ?_) fun _ _ hcut => hcut
        obtain ⟨used, left⟩ := result
        obtain ⟨hsame₁, hused⟩ := hresult
        dsimp only at hused ⊢
        rw [ends_bind, ends_get, ends_bind]
        refine (readTrailing_ends _ left).mono (fun ended disk₂ hended => ?_)
          fun _ _ hcut => hsame₁.trans hcut
        obtain ⟨hsame₂, hended⟩ := hended
        have hsame₂ := hsame₁.trans hsame₂
        have hresult : ∀ outcomes, Ends (if h : used.length = 32 ∧ ended = true
            then pure (Reading.record ⟨used, h.1⟩) else pure Reading.failed : Io Reading)
            { disk₂ with outcomes := outcomes }
            (fun reading disk' => disk.Same disk' ∧ reading.Of (some bytes)) fun _ => disk.Same := by
          intro outcomes
          split
          · rename_i hall
            refine (ends_pure _).mpr ⟨hsame₂, ?_⟩
            show some bytes = some used
            rw [← hused, hended hall.2, List.append_nil]
          · exact (ends_pure _).mpr ⟨hsame₂, trivial⟩
        rw [ends_bind]
        exact ends_attempt hsame₂ hresult hresult

end Operations

/-! ### Saving and loading -/

section Protocol

variable {userId : BitVec 32} {state : State} {disk : Disk}

/-- The records of a `save`, in order. -/
def saveWrites (userId : BitVec 32) (state : State) : List (Name × Record) :=
  [(.seen, encode userId .empty kPendingMagic), (.lockout, encode userId state kMagic),
    (.seen, encode userId .empty kMarkerMagic)]

/-- The records of a first `load`. -/
def initWrites (userId : BitVec 32) : List (Name × Record) :=
  [(.seen, encode userId .empty kMarkerMagic), (.lockout, encode userId .empty kMagic)]

/-- The files with records written over them. -/
def overwrite (file : Name → Option (List Byte)) (writes : List (Name × Record)) :
    Name → Option (List Byte) :=
  writes.foldl (fun file w => Function.update file w.1 (some w.2.bytes)) file

/-- So many renames of a sequence took effect. -/
def Disk.Behind (disk : Disk) (writes : List (Name × Record)) (k : Nat) (disk' : Disk) : Prop :=
  disk'.file = overwrite disk.file (writes.take k) ∧ disk'.renames = disk.renames + k

theorem Disk.Behind.same {writes : List (Name × Record)} {k : Nat} {a b c : Disk}
    (hab : a.Behind writes k b) (hbc : b.Same c) : a.Behind writes k c :=
  ⟨hbc.1.trans hab.1, hbc.2.trans hab.2⟩

/-- One more record of the sequence. -/
theorem andThen_writeRecord_ends {writes : List (Name × Record)} {name : Name} {record : Record}
    {a b : Disk} {ok : Bool} {n k : Nat} (hnext : writes[n]? = some (name, record))
    (hk : k ≤ n) (hab : a.Behind writes k b) (hok : ok = true → k = n) :
    Ends (andThen ok (writeRecord name record)) b
      (fun ok' c => ∃ k', k' ≤ n + 1 ∧ a.Behind writes k' c ∧ (ok' = true → k' = n + 1))
      (fun _ c => ∃ k', k' ≤ n + 1 ∧ a.Behind writes k' c) := by
  unfold andThen
  split
  · rename_i htrue
    obtain rfl := hok htrue
    have hreplaced : ∀ c, b.Replaced name record c → a.Behind writes (k + 1) c := by
      intro c hc
      refine ⟨?_, ?_⟩
      · have htake : writes.take (k + 1) = writes.take k ++ [(name, record)] := by
          rw [List.take_add_one, hnext]
          rfl
        unfold overwrite
        rw [hc.1, hab.1, htake, List.foldl_append]
        rfl
      · rw [hc.2, hab.2]
        omega
    refine writeRecord_ends.mono (fun ok' c hc => ?_) fun _ c hc => ?_
    · rcases hc with ⟨hsame, hfalse⟩ | hc
      · refine ⟨k, by omega, hab.same hsame, fun htrue' => ?_⟩
        rw [hfalse] at htrue'
        cases htrue'
      · exact ⟨k + 1, by omega, hreplaced c hc, fun _ => rfl⟩
    · rcases hc with hsame | hc
      · exact ⟨k, by omega, hab.same hsame⟩
      · exact ⟨k + 1, by omega, hreplaced c hc⟩
  · exact (ends_pure _).mpr ⟨k, by omega, hab, nofun⟩

/-- **A save leaves the files behind some of its renames**, and behind all of them when it returns
`true`. -/
theorem save_ends : Ends (save userId state) disk
    (fun ok disk' => ∃ k, k ≤ 3 ∧ disk.Behind (saveWrites userId state) k disk' ∧
      (ok = true → k = 3))
    (fun _ disk' => ∃ k, k ≤ 3 ∧ disk.Behind (saveWrites userId state) k disk') := by
  have hstart : ∀ outcomes,
      disk.Behind (saveWrites userId state) 0 { disk with outcomes := outcomes } :=
    fun _ => ⟨rfl, rfl⟩
  unfold save
  rw [ends_bind]
  refine ends_attempt ⟨0, by omega, hstart _⟩
    (fun _ => (ends_pure _).mpr ⟨0, by omega, hstart _, nofun⟩) fun outcomes => ?_
  rw [Bool.not_true, if_neg Bool.false_ne_true, ends_bind]
  have hpending := andThen_writeRecord_ends (n := 0) (show (saveWrites userId state)[0]? = _ from rfl)
    (Nat.le_refl _) (hstart outcomes) fun _ : true = true => rfl
  refine Ends.mono hpending (fun pending disk₁ hdisk₁ => ?_) fun _ disk' hcut => ?_
  · obtain ⟨k₁, hk₁, hbehind₁, hok₁⟩ := hdisk₁
    rw [ends_bind]
    refine (andThen_writeRecord_ends (n := 1) rfl hk₁ hbehind₁ hok₁).mono
      (fun written disk₂ hdisk₂ => ?_) fun _ disk' hcut => ?_
    · obtain ⟨k₂, hk₂, hbehind₂, hok₂⟩ := hdisk₂
      rw [ends_bind]
      refine (andThen_writeRecord_ends (n := 2) rfl hk₂ hbehind₂ hok₂).mono
        (fun ok disk₃ hdisk₃ => ?_) fun _ disk' hcut => hcut
      obtain ⟨k₃, hk₃, hbehind₃, hok₃⟩ := hdisk₃
      rw [ends_bind]
      exact ends_attempt ⟨k₃, hk₃, hbehind₃⟩
        (fun _ => (ends_pure _).mpr ⟨k₃, hk₃, hbehind₃, hok₃⟩)
        fun _ => (ends_pure _).mpr ⟨k₃, hk₃, hbehind₃, hok₃⟩
    · obtain ⟨k, hk, hbehind⟩ := hcut
      exact ⟨k, by omega, hbehind⟩
  · obtain ⟨k, hk, hbehind⟩ := hcut
    exact ⟨k, by omega, hbehind⟩

/-- The record counts: its marker is the final one, or all failures are in it. -/
def Disk.Visible (userId : BitVec 32) (disk : Disk) (s : State) : Prop :=
  ∃ record : Record, disk.file .lockout = some record.bytes ∧ decode userId record = some s ∧
    (disk.file .seen = some (encode userId .empty kMarkerMagic).bytes ∨ s.failed = 20)

/-- What a `load` may do and return. -/
def Disk.Loaded (userId : BitVec 32) (disk : Disk) (result : Option State) (disk' : Disk) : Prop :=
  (disk.file .seen = none ∧ disk.file .lockout = none ∧
    ∃ k, k ≤ 2 ∧ disk.Behind (initWrites userId) k disk' ∧
      ∀ s, result = some s → k = 2 ∧ s = .empty) ∨
  (disk.Same disk' ∧ ∀ s, result = some s → disk.Visible userId s)

/-- What the two readings lead to. -/
theorem accept_ends {b : Disk} {marker record : Reading} (hsame : disk.Same b)
    (hmarker : marker.Of (disk.file .seen)) (hrecord : record.Of (disk.file .lockout)) :
    Ends (accept userId marker record) b (fun result disk' => disk.Loaded userId result disk')
      (fun _ disk' => disk.Loaded userId none disk') := by
  have hnothing : ∀ disk', disk.Same disk' → disk.Loaded userId none disk' :=
    fun _ hdisk' => .inr ⟨hdisk', nofun⟩
  unfold accept
  split
  · -- neither file is there
    have hstart : disk.Behind (initWrites userId) 0 b := hsame
    have hinit : ∀ k disk', k ≤ 2 → disk.Behind (initWrites userId) k disk' →
        disk.Loaded userId none disk' :=
      fun k disk' hk hbehind => .inl ⟨hmarker, hrecord, k, hk, hbehind, nofun⟩
    have hseen := andThen_writeRecord_ends (n := 0) (show (initWrites userId)[0]? = _ from rfl)
      (Nat.le_refl _) hstart fun _ : true = true => rfl
    rw [ends_bind]
    refine Ends.mono hseen (fun seen disk₁ hdisk₁ => ?_) fun _ disk' hcut => ?_
    · obtain ⟨k₁, hk₁, hbehind₁, hok₁⟩ := hdisk₁
      rw [ends_bind]
      refine (andThen_writeRecord_ends (n := 1) rfl hk₁ hbehind₁ hok₁).mono
        (fun ok disk₂ hdisk₂ => ?_) fun _ disk' hcut => ?_
      · obtain ⟨k₂, hk₂, hbehind₂, hok₂⟩ := hdisk₂
        refine (ends_pure _).mpr (.inl ⟨hmarker, hrecord, k₂, hk₂, hbehind₂, fun s hs => ?_⟩)
        split at hs
        · rename_i hok
          exact ⟨hok₂ hok, (Option.some.inj hs).symm⟩
        · cases hs
      · obtain ⟨k, hk, hbehind⟩ := hcut
        exact hinit k disk' hk hbehind
    · obtain ⟨k, hk, hbehind⟩ := hcut
      exact hinit k disk' (by omega) hbehind
  · rename_i read
    split
    · exact (ends_pure _).mpr (hnothing b hsame)
    · rename_i s hs
      refine (ends_pure _).mpr (.inr ⟨hsame, fun s' hs' => ?_⟩)
      split at hs'
      · rename_i hcounts
        obtain rfl := Option.some.inj hs'
        refine ⟨read, hrecord, hs, ?_⟩
        rcases Bool.or_eq_true_iff.mp hcounts with hexpected | hfailed
        · left
          cases marker with
          | enoent => cases hexpected
          | failed => cases hexpected
          | record seen =>
              have hseen : disk.file .seen = some seen.bytes := hmarker
              rw [hseen, of_decide_eq_true hexpected]
        · exact .inr (beq_iff_eq.mp hfailed)
      · cases hs'
  · exact (ends_pure _).mpr (hnothing b hsame)

/-- **A load changes files only when there are none**, and returns `true` only for a record that
counts, or for the empty one that it has written itself. -/
theorem load_ends : Ends (load userId) disk
    (fun result disk' => disk.Loaded userId result disk')
    (fun _ disk' => disk.Loaded userId none disk') := by
  have hnothing : ∀ disk', disk.Same disk' → disk.Loaded userId none disk' :=
    fun _ hdisk' => .inr ⟨hdisk', nofun⟩
  have hlater : ∀ result disk₁ outcomes, disk.Loaded userId result disk₁ →
      disk.Loaded userId result { disk₁ with outcomes := outcomes } :=
    fun _ _ _ h => h
  have hcut : ∀ result disk₁, disk.Loaded userId result disk₁ → disk.Loaded userId none disk₁ := by
    rintro result disk₁ (⟨hseen, hlockout, k, hk, hbehind, -⟩ | ⟨hsame, -⟩)
    · exact .inl ⟨hseen, hlockout, k, hk, hbehind, nofun⟩
    · exact .inr ⟨hsame, nofun⟩
  unfold load
  rw [ends_bind]
  refine ends_attempt (hnothing _ ⟨rfl, rfl⟩)
    (fun _ => (ends_pure _).mpr (hnothing _ ⟨rfl, rfl⟩)) fun outcomes => ?_
  rw [Bool.not_true, if_neg Bool.false_ne_true, ends_bind]
  refine readRecord_ends.mono (fun marker disk₁ hdisk₁ => ?_) fun _ disk' hdisk' =>
    hnothing disk' hdisk'
  obtain ⟨hsame₁, hmarker⟩ := hdisk₁
  have hsame₁ : disk.Same disk₁ := hsame₁
  rw [ends_bind]
  refine readRecord_ends.mono (fun record disk₂ hdisk₂ => ?_) fun _ disk' hdisk' =>
    hnothing disk' (hsame₁.trans hdisk')
  obtain ⟨hsame₂, hrecord⟩ := hdisk₂
  rw [hsame₁.1] at hrecord
  rw [ends_bind]
  refine (accept_ends (hsame₁.trans hsame₂) hmarker hrecord).mono (fun result disk₃ hdisk₃ => ?_)
    fun _ _ hdisk' => hdisk'
  rw [ends_bind]
  exact ends_attempt (hcut result disk₃ hdisk₃)
    (fun _ => (ends_pure _).mpr hdisk₃) fun _ => (ends_pure _).mpr hdisk₃

end Protocol

end Mindone.Fingerprint
