import Mindone.Fsd.Replies
import Mindone.Lib.Contract
import Mindone.Lib.Tally

/-!
# Mindone.Fsd.Descriptors

The descriptors and directory streams of the file service over whole runs. A ledger of the calls
gives every open descriptor the number of the call that opened it, so that a descriptor number
that is used again is told from the earlier one. **What is open is what the tables record**, each
in one entry; nothing is closed that is not open; and a handle designates one open file until a
request closes it.

The handle of a compound write is the exception. It is put into `g_handles`, and the answer has
no place for it: a compound write that opens a file and does not come to its closing leaves a
descriptor that no request will ever name.
-/

namespace Mindone.Fsd

open Mindone.Lib

/-! ### The ledger -/

/-- The open descriptors and directory streams, each with the number of its call. -/
structure Ledger where
  fds : Nat → Option Nat
  dirs : Nat → Option Nat
  next : Nat

def Ledger.init : Ledger := ⟨fun _ => none, fun _ => none, 0⟩

/-- A call is made only with what is open. -/
def Ledger.Allows (L : Ledger) : Call → Prop
  | .close fd | .lseek fd _ _ | .read fd _ | .write fd _ => L.fds fd ≠ none
  | .closedir dir => L.dirs dir ≠ none
  | _ => True

/-- What is opened was not open. -/
def Ledger.Fresh (L : Ledger) : (c : Call) → Answer c → Prop
  | .open _ _, .ok fd => L.fds fd = none
  | .opendir _, .ok dir => L.dirs dir.id = none
  | _, _ => True

def Ledger.after (L : Ledger) : (c : Call) → Answer c → Ledger
  | .open _ _, .ok fd => { L with fds := Function.update L.fds fd (some L.next), next := L.next + 1 }
  | .opendir _, .ok dir =>
      { L with dirs := Function.update L.dirs dir.id (some L.next), next := L.next + 1 }
  | .close fd, _ => { L with fds := Function.update L.fds fd none }
  | .closedir dir, _ => { L with dirs := Function.update L.dirs dir none }
  | _, _ => L

/-- **The contract with the file system**: descriptors that it hands out are new, and only open
ones are used and closed. -/
def descriptors : Contract Call Answer Ledger := ⟨Ledger.Allows, Ledger.Fresh, Ledger.after⟩

/-! ### The tables -/

/-- The entries for descriptors. -/
def Tables.descriptor (t : Tables) : Fin fsHandleMax ⊕ Fin maxOpenHandles → Option Nat :=
  Sum.elim t.fsHandles t.handles

/-- The entries for directory streams. -/
def Tables.stream (t : Tables) (i : Fin fsFindMax) : Option Nat := (t.fsFinds i).map (·.dir.id)

/-- **What is open is what the tables record**, each in one entry. -/
structure Accounted (L : Ledger) (t : Tables) : Prop where
  fds : Tallies L.fds t.descriptor
  dirs : Tallies L.dirs t.stream

/-- The open file that a handle designates, by the number of its call. -/
def Tables.fileOf (L : Ledger) (t : Tables) (i : Fin fsHandleMax) : Option Nat :=
  (t.fsHandles i).bind L.fds

/-- The search that a handle designates. -/
def Tables.findOf (L : Ledger) (t : Tables) (i : Fin fsFindMax) : Option Nat :=
  (t.stream i).bind L.dirs

/-! ### Programs that leave everything as it was -/

/-- The ledger and the tables are as before. -/
structure Same (L : Ledger) (t : Tables) (L' : Ledger) (t' : Tables) : Prop where
  fds : L'.fds = L.fds
  dirs : L'.dirs = L.dirs
  next : L.next ≤ L'.next
  tables : t' = t

theorem Same.refl (L : Ledger) (t : Tables) : Same L t L t := ⟨rfl, rfl, Nat.le_refl _, rfl⟩

theorem Same.trans {L L' L'' : Ledger} {t t' t'' : Tables} (h : Same L t L' t')
    (h' : Same L' t' L'' t'') : Same L t L'' t'' :=
  ⟨h'.fds.trans h.fds, h'.dirs.trans h.dirs, Nat.le_trans h.next h'.next, h'.tables.trans h.tables⟩

section Neutral

variable {α β : Type}

/-- From any ledger and any tables, the program closes again what it opens, and leaves the tables
alone. -/
def Neutral (x : Sys α) : Prop :=
  ∀ L t, Dialogue.Keeps descriptors (fun L' r => Same L t L' r.2) L (x t)

theorem Neutral.pure (a : α) : Neutral (pure a : Sys α) := fun L t => Same.refl L t

theorem Neutral.bind {x : Sys α} {f : α → Sys β} (hx : Neutral x) (hf : ∀ a, Neutral (f a)) :
    Neutral (x >>= f) := by
  intro L t
  rw [bind_apply, Dialogue.keeps_bind]
  exact (hx L t).mono fun L' r hr => (hf r.1 L' r.2).mono fun _ _ h => hr.trans h

/-- The calls that neither open nor close nor use a descriptor. -/
def Call.plain : Call → Bool
  | .stat _ | .lstat _ | .access _ | .mkdir _ | .rmdir _ | .unlink _ | .rename _ _ | .statfs _ => true
  | _ => false

theorem neutral_perform {c : Call} (hc : c.plain = true) : Neutral (perform c) := by
  intro L t
  cases c with
  | «open» | close | lseek | read | write | opendir | closedir => cases hc
  | _ => exact ⟨trivial, fun _ _ => Same.refl L t⟩

/-- Behind a call. -/
theorem Neutral.call {c : Call} {f : Answer c → Sys β} (hc : c.plain = true)
    (hf : ∀ a, Neutral (f a)) : Neutral (perform c >>= f) := (neutral_perform hc).bind hf

/-- From a ledger in which a stream is open, the program closes it. -/
def Ends (dir : Nat) (x : Sys α) : Prop :=
  ∀ L t, L.dirs dir ≠ none →
    Dialogue.Keeps descriptors (fun L' r => L'.fds = L.fds ∧
      L'.dirs = Function.update L.dirs dir none ∧ L.next ≤ L'.next ∧ r.2 = t) L (x t)

/-- A program and behind it the closing of a stream. -/
theorem Neutral.ends {dir : Nat} {x : Sys α} {f : α → Sys β} (hx : Neutral x)
    (hf : ∀ a, Neutral (f a)) : Ends dir (x >>= fun a => perform (.closedir dir) >>= fun _ => f a) := by
  intro L t hopen
  rw [bind_apply, Dialogue.keeps_bind]
  refine (hx L t).mono fun L' r hr => ?_
  refine ⟨by show L'.dirs dir ≠ none; rw [hr.dirs]; exact hopen, fun _ _ => ?_⟩
  refine (hf r.1 _ r.2).mono fun L'' r' h => ?_
  refine ⟨h.fds.trans hr.fds, h.dirs.trans ?_, Nat.le_trans hr.next h.next, h.tables.trans hr.tables⟩
  show Function.update L'.dirs dir none = _
  rw [hr.dirs]

/-- The opening of a stream that is closed again. -/
theorem Neutral.within {dir : Path} {f : Except Errno Dir → Sys β} (hf : ∀ e, Neutral (f (.error e)))
    (hclose : ∀ stream, Ends stream.id (f (.ok stream))) : Neutral (perform (.opendir dir) >>= f) := by
  intro L t
  refine ⟨trivial, fun answer hfresh => ?_⟩
  cases answer with
  | error e => exact hf e L t
  | ok stream =>
      refine (hclose stream _ t ?_).mono fun L' r h => ?_
      · show Function.update L.dirs stream.id (some L.next) stream.id ≠ none
        rw [Function.update_self]
        nofun
      · refine ⟨h.1, h.2.1.trans ?_, Nat.le_trans (Nat.le_succ _) h.2.2.1, h.2.2.2⟩
        show Function.update (Function.update L.dirs stream.id (some L.next)) stream.id none = _
        rw [Function.update_idem]
        exact Function.update_eq_self_iff.mpr hfresh.symm

end Neutral

theorem rmLoop_neutral {rm : Path → Sys Int} (hrm : ∀ file, Neutral (rm file)) (dir : Path)
    (names : List Path) : Neutral (rmLoop rm dir names) := by
  induction names with
  | nil => exact .pure _
  | cons name rest ih =>
      unfold rmLoop
      split
      · exact ih
      split
      · exact ih
      · exact (hrm _).bind fun _ => ih

theorem fsRmRecursive_neutral (left : Nat) (file : Path) : Neutral (fsRmRecursive left file) := by
  induction left generalizing file with
  | zero => exact .pure _
  | succ left ih =>
      refine .call rfl fun answer => ?_
      split
      · exact .pure _
      split
      · refine .call rfl fun answer => ?_
        split
        · exact .pure _
        · exact .pure _
      refine .within (fun e => .pure _) fun stream => ?_
      refine (rmLoop_neutral ih file stream.names).ends fun _ => ?_
      refine .call rfl fun answer => ?_
      split
      · exact .pure _
      · exact .pure _

theorem sizeLoop_neutral {size : Path → Sys Int} (hsize : ∀ file, Neutral (size file)) (dir : Path)
    (names : List Path) (total : Int) : Neutral (sizeLoop size dir names total) := by
  induction names generalizing total with
  | nil => exact .pure _
  | cons name rest ih =>
      unfold sizeLoop
      split
      · exact ih _
      split
      · exact ih _
      refine .call rfl fun answer => ?_
      split
      · exact ih _
      split
      · exact (hsize _).bind fun _ => ih _
      split
      · exact ih _
      · exact ih _

theorem fsFolderSize_neutral (left : Nat) (dir : Path) : Neutral (fsFolderSize left dir) := by
  induction left generalizing dir with
  | zero => exact .pure _
  | succ left ih =>
      refine .within (fun _ => .pure _) fun stream => ?_
      exact (sizeLoop_neutral ih dir stream.names 0).ends fun _ => .pure _

theorem fsDirCount_neutral (dir : Path) : Neutral (fsDirCount dir) :=
  .within (fun _ => .pure _) fun _ => (Neutral.pure ()).ends fun _ => .pure _

theorem caseCall_neutral {answered : Sys (Except Errno Unit)} (h : Neutral answered)
    (result : Errno → Int) : Neutral (caseCall answered result) := by
  refine h.bind fun answer => ?_
  split
  · exact .pure _
  · exact .pure _

/-! ### Using a descriptor -/

section Uses

variable {α β : Type} {fd : Nat}

/-- From a ledger in which a descriptor is open, the program leaves everything as it was. -/
def Uses (fd : Nat) (x : Sys α) : Prop :=
  ∀ L t, L.fds fd ≠ none → Dialogue.Keeps descriptors (fun L' r => Same L t L' r.2) L (x t)

theorem Uses.bind {x : Sys α} {f : α → Sys β} (hx : Uses fd x) (hf : ∀ a, Uses fd (f a)) :
    Uses fd (x >>= f) := by
  intro L t hopen
  rw [bind_apply, Dialogue.keeps_bind]
  refine (hx L t hopen).mono fun L' r hr => ?_
  refine (hf r.1 L' r.2 ?_).mono fun _ _ h => hr.trans h
  rw [hr.fds]
  exact hopen

theorem Uses.pure (a : α) : Uses fd (pure a : Sys α) := fun L t _ => Same.refl L t

theorem uses_lseek (offset whence : Int) : Uses fd (perform (.lseek fd offset whence)) :=
  fun L t hopen => ⟨hopen, fun _ _ => Same.refl L t⟩

theorem uses_read (count : Nat) : Uses fd (perform (.read fd count)) :=
  fun L t hopen => ⟨hopen, fun _ _ => Same.refl L t⟩

theorem uses_write (bytes : Bytes) : Uses fd (perform (.write fd bytes)) :=
  fun L t hopen => ⟨hopen, fun _ _ => Same.refl L t⟩

theorem cmptSeek_uses (asked : Bool) (offset : Nat) (whence : Int) :
    Uses fd (cmptSeek asked fd offset whence) := by
  unfold cmptSeek
  split
  · refine (uses_lseek _ _).bind fun answer => ?_
    split
    · exact .pure _
    · exact .pure _
  · exact .pure _

theorem cmptPut_uses (req : CmptWriteReq) : Uses fd (cmptPut req fd) := by
  unfold cmptPut
  split
  · refine (uses_write _).bind fun answer => ?_
    split
    · exact .pure _
    · exact .pure _
  · exact .pure _

/-- From a ledger in which a descriptor is open, the program closes it. -/
def Closes (fd : Nat) (x : Sys α) : Prop :=
  ∀ L t, L.fds fd ≠ none →
    Dialogue.Keeps descriptors (fun L' r => L'.fds = Function.update L.fds fd none ∧
      L'.dirs = L.dirs ∧ L.next ≤ L'.next ∧ r.2 = t) L (x t)

theorem closes_return (a : α) : Closes fd (perform (.close fd) >>= fun _ => pure a) :=
  fun _ _ hopen => ⟨hopen, fun _ _ => ⟨rfl, rfl, Nat.le_refl _, rfl⟩⟩

theorem Uses.closes {x : Sys α} {f : α → Sys β} (hx : Uses fd x) (hf : ∀ a, Closes fd (f a)) :
    Closes fd (x >>= f) := by
  intro L t hopen
  rw [bind_apply, Dialogue.keeps_bind]
  refine (hx L t hopen).mono fun L' r hr => ?_
  have hopen' : L'.fds fd ≠ none := by
    rw [hr.fds]
    exact hopen
  refine (hf r.1 L' r.2 hopen').mono fun L'' r' h => ?_
  rw [hr.fds] at h
  exact ⟨h.1, h.2.1.trans hr.dirs, Nat.le_trans hr.next h.2.2.1, h.2.2.2.trans hr.tables⟩

/-- The opening of a descriptor that is closed again. -/
theorem Closes.opened {file : Path} {flags : OpenFlags} {f : Except Errno Nat → Sys β}
    (hf : ∀ e, Neutral (f (.error e))) (hclose : ∀ fd, Closes fd (f (.ok fd))) :
    Neutral (perform (.open file flags) >>= f) := by
  intro L t
  refine ⟨trivial, fun answer hfresh => ?_⟩
  cases answer with
  | error e => exact hf e L t
  | ok fd =>
      refine (hclose fd _ t ?_).mono fun L' r h => ?_
      · show Function.update L.fds fd (some L.next) fd ≠ none
        rw [Function.update_self]
        nofun
      · refine ⟨h.1.trans ?_, h.2.1, Nat.le_trans (Nat.le_succ _) h.2.2.1, h.2.2.2⟩
        show Function.update (Function.update L.fds fd (some L.next)) fd none = _
        rw [Function.update_idem]
        exact Function.update_eq_self_iff.mpr hfresh.symm

end Uses

/-- **A compound read closes what it opens.** -/
theorem handleCmptRead_neutral (creq : CmptReadReq) (real : Path) :
    Neutral (handleCmptRead creq real) := by
  unfold handleCmptRead
  split
  · refine Closes.opened (fun e => .pure _) fun fd => ?_
    refine (cmptSeek_uses _ _ _).closes fun sought => ?_
    split
    · exact closes_return _
    split
    · refine (uses_read _).closes fun answer => ?_
      split
      · exact closes_return _
      · exact closes_return _
    · exact closes_return _
  · exact .pure _

/-! ### What a request does -/

/-- **What a request leaves**: tables that record what is open, and every handle that it does not
close as it was. -/
structure Step (file : Fin fsHandleMax → Prop) (find : Fin fsFindMax → Prop) (L : Ledger)
    (t : Tables) (L' : Ledger) (t' : Tables) : Prop where
  accounted : Accounted L' t'
  files : ∀ {i o}, t.fileOf L i = some o → ¬ file i → t'.fileOf L' i = some o
  finds : ∀ {i o}, t.findOf L i = some o → ¬ find i → t'.findOf L' i = some o
  next : L.next ≤ L'.next

section Step

variable {file : Fin fsHandleMax → Prop} {find : Fin fsFindMax → Prop} {L L' : Ledger}
  {t t' : Tables}

theorem Same.step (h : Same L t L' t') (hL : Accounted L t) : Step file find L t L' t' := by
  obtain ⟨hfds, hdirs, hnext, rfl⟩ := h
  refine ⟨⟨?_, ?_⟩, fun hfile _ => ?_, fun hfind _ => ?_, hnext⟩
  · rw [hfds]
    exact hL.fds
  · rw [hdirs]
    exact hL.dirs
  · unfold Tables.fileOf
    rw [hfds]
    exact hfile
  · unfold Tables.findOf
    rw [hdirs]
    exact hfind

end Step

theorem descriptor_fsHandles (t : Tables) (i : Fin fsHandleMax) (fd : Option Nat) :
    Tables.descriptor { t with fsHandles := Function.update t.fsHandles i fd } =
      Function.update t.descriptor (.inl i) fd := (Sum.update_elim_inl ..).symm

theorem descriptor_handles (t : Tables) (i : Fin maxOpenHandles) (fd : Option Nat) :
    Tables.descriptor { t with handles := Function.update t.handles i fd } =
      Function.update t.descriptor (.inr i) fd := (Sum.update_elim_inr ..).symm

theorem stream_fsFinds (t : Tables) (i : Fin fsFindMax) (find : Option Find) :
    Tables.stream { t with fsFinds := Function.update t.fsFinds i find } =
      Function.update t.stream i (find.map (·.dir.id)) := by
  funext j
  unfold Tables.stream
  by_cases hj : j = i
  · subst hj
    simp only [Function.update_self]
  · simp only [Function.update_of_ne hj]

/-! ### The requests that open and close -/

section Requests

variable {file : Fin fsHandleMax → Prop} {find : Fin fsFindMax → Prop} {L : Ledger} {t : Tables}

theorem firstFree_some {n : Nat} {α : Type} {table : Fin n → Option α} {i : Fin n}
    (h : firstFree table = some i) : 0 < i.val ∧ table i = none := by
  have hfound := List.find?_some h
  rw [Bool.and_eq_true, decide_eq_true_eq, Option.isNone_iff_eq_none] at hfound
  exact hfound

theorem entry_some {n : Nat} {α : Type} {table : Fin n → Option α} {h : Int} {i : Fin n} {a : α}
    (hentry : entry table h = some (i, a)) : h = i.val ∧ table i = some a := by
  unfold entry at hentry
  split at hentry
  · obtain ⟨b, hb, hpair⟩ := Option.map_eq_some_iff.mp hentry
    cases hpair
    refine ⟨?_, hb⟩
    show h = (h.toNat : Int)
    omega
  · cases hentry

/-- A new descriptor in a free entry. -/
theorem Accounted.fillFile (hL : Accounted L t) {i : Fin fsHandleMax} {fd : Nat}
    (hi : t.fsHandles i = none) (hfd : L.fds fd = none) :
    Step file find L t
      { L with fds := Function.update L.fds fd (some L.next), next := L.next + 1 }
      { t with fsHandles := Function.update t.fsHandles i (some fd) } := by
  refine ⟨⟨?_, hL.dirs⟩, fun {j o} hj _ => ?_, fun hfind _ => hfind, Nat.le_succ _⟩
  · rw [descriptor_fsHandles]
    exact hL.fds.fill (i := .inl i) hi hfd L.next
  · have hother := hL.fds.fill_other (i := .inl i) hi hfd L.next (j := .inl j) hj
    rw [← descriptor_fsHandles] at hother
    exact hother

/-- The descriptor of an entry goes. -/
theorem Accounted.clearFile (hL : Accounted L t) {i : Fin fsHandleMax} {fd : Nat}
    (hi : t.fsHandles i = some fd) (hfile : file i) :
    Step file find L t { L with fds := Function.update L.fds fd none }
      { t with fsHandles := Function.update t.fsHandles i none } := by
  refine ⟨⟨?_, hL.dirs⟩, fun {j o} hj hkept => ?_, fun hfind _ => hfind, Nat.le_refl _⟩
  · rw [descriptor_fsHandles]
    exact hL.fds.clear (i := .inl i) hi
  · have hji : (Sum.inl j : Fin fsHandleMax ⊕ Fin maxOpenHandles) ≠ .inl i := by
      rintro ⟨⟩
      exact hkept hfile
    have hother := hL.fds.clear_other (i := .inl i) hi hji hj
    rw [← descriptor_fsHandles] at hother
    exact hother

/-- A new descriptor in a free entry of `g_handles`. -/
theorem Accounted.fillHandle (hL : Accounted L t) {i : Fin maxOpenHandles} {fd : Nat}
    (hi : t.handles i = none) (hfd : L.fds fd = none) :
    Step file find L t
      { L with fds := Function.update L.fds fd (some L.next), next := L.next + 1 }
      { t with handles := Function.update t.handles i (some fd) } := by
  refine ⟨⟨?_, hL.dirs⟩, fun {j o} hj _ => ?_, fun hfind _ => hfind, Nat.le_succ _⟩
  · rw [descriptor_handles]
    exact hL.fds.fill (i := .inr i) hi hfd L.next
  · have hother := hL.fds.fill_other (i := .inr i) hi hfd L.next (j := .inl j) hj
    rw [← descriptor_handles] at hother
    exact hother

theorem Accounted.clearHandle (hL : Accounted L t) {i : Fin maxOpenHandles} {fd : Nat}
    (hi : t.handles i = some fd) :
    Step file find L t { L with fds := Function.update L.fds fd none }
      { t with handles := Function.update t.handles i none } := by
  refine ⟨⟨?_, hL.dirs⟩, fun {j o} hj _ => ?_, fun hfind _ => hfind, Nat.le_refl _⟩
  · rw [descriptor_handles]
    exact hL.fds.clear (i := .inr i) hi
  · have hother := hL.fds.clear_other (i := .inr i) hi (j := .inl j) nofun hj
    rw [← descriptor_handles] at hother
    exact hother

/-- A new search in a free entry. -/
theorem Accounted.fillFind (hL : Accounted L t) {i : Fin fsFindMax} (slot : Find)
    (hi : t.fsFinds i = none) (hdir : L.dirs slot.dir.id = none) :
    Step file find L t
      { L with dirs := Function.update L.dirs slot.dir.id (some L.next), next := L.next + 1 }
      { t with fsFinds := Function.update t.fsFinds i (some slot) } := by
  have hfree : t.stream i = none := by
    unfold Tables.stream
    rw [hi]
    rfl
  refine ⟨⟨hL.fds, ?_⟩, fun hfile _ => hfile, fun {j o} hj _ => ?_, Nat.le_succ _⟩
  · rw [stream_fsFinds]
    exact hL.dirs.fill hfree hdir L.next
  · unfold Tables.findOf
    rw [stream_fsFinds]
    exact hL.dirs.fill_other hfree hdir L.next hj

theorem Accounted.clearFind (hL : Accounted L t) {i : Fin fsFindMax} {slot : Find}
    (hi : t.fsFinds i = some slot) (hfind : find i) :
    Step file find L t { L with dirs := Function.update L.dirs slot.dir.id none }
      { t with fsFinds := Function.update t.fsFinds i none } := by
  have hslot : t.stream i = some slot.dir.id := by
    unfold Tables.stream
    rw [hi]
    rfl
  refine ⟨⟨hL.fds, ?_⟩, fun hfile _ => hfile, fun {j o} hj hkept => ?_, Nat.le_refl _⟩
  · rw [stream_fsFinds]
    exact hL.dirs.clear hslot
  · have hji : j ≠ i := by
      rintro rfl
      exact hkept hfind
    unfold Tables.findOf
    rw [stream_fsFinds]
    exact hL.dirs.clear_other hslot hji hj

/-- The handle of an opened file designates the call that opened it. -/
def Opens (L : Ledger) (result : Int) (L' : Ledger) (t' : Tables) : Prop :=
  0 < result → ∃ i : Fin fsHandleMax, ∃ o, result = i.val ∧ t'.fileOf L' i = some o ∧ L.next ≤ o

/-- The same for a search. -/
def Searches (L : Ledger) (result : Int) (L' : Ledger) (t' : Tables) : Prop :=
  0 < result → ∃ i : Fin fsFindMax, ∃ o, result = i.val ∧ t'.findOf L' i = some o ∧ L.next ≤ o

/-- A result that `int32_t` holds. -/
def Small (result : Int) : Prop := -0x80000000 ≤ result ∧ result < 0x80000000

/-- A file that is opened has a descriptor of its own. -/
theorem fsHandleOpen_keeps (file : Fin fsHandleMax → Prop)
    (find : Fin fsFindMax → Prop) (hL : Accounted L t) (real : Path) (flags : Nat) :
    Dialogue.Keeps descriptors (fun L' r => Step file find L t L' r.2 ∧ r.2.handles = t.handles ∧
      Opens L r.1 L' r.2 ∧ Small r.1) L (fsHandleOpen real flags t) := by
  have hnothing : ∀ {L' : Ledger}, L' = L → ∀ result : Int, -100 ≤ result ∧ result ≤ 0 →
      Step file find L t L' t ∧ t.handles = t.handles ∧ Opens L result L' t ∧ Small result := by
    rintro _ rfl result hresult
    exact ⟨(Same.refl _ _).step hL, rfl, fun hpos => by omega, by unfold Small; omega⟩
  unfold fsHandleOpen
  rw [bind_apply, get_apply, Dialogue.ret_bind]
  cases hfree : firstFree t.fsHandles with
  | none => exact hnothing rfl fsErrEmfileMapped (by decide)
  | some i =>
      obtain ⟨-, hi⟩ := firstFree_some hfree
      refine ⟨trivial, fun answer hfresh => ?_⟩
      cases answer with
      | error e =>
          refine hnothing rfl _ ?_
          dsimp only
          split
          · decide
          · decide
      | ok fd =>
          have hlt : i.val < 32 := i.isLt
          refine ⟨hL.fillFile hi hfresh, rfl, fun _ => ⟨i, L.next, rfl, ?_, Nat.le_refl _⟩,
            by unfold Small; omega⟩
          show (Function.update t.fsHandles i (some fd) i).bind
            (Function.update L.fds fd (some L.next)) = _
          rw [Function.update_self, Option.bind_some, Function.update_self]

theorem fsHandleClose_keeps (file : Fin fsHandleMax → Prop)
    (find : Fin fsFindMax → Prop) (hL : Accounted L t) {h : Int}
    (hfile : ∀ i : Fin fsHandleMax, h = i.val → file i) :
    Dialogue.Keeps descriptors (fun L' r => Step file find L t L' r.2 ∧ r.2.handles = t.handles) L
      (fsHandleClose h t) := by
  unfold fsHandleClose
  rw [bind_apply, get_apply, Dialogue.ret_bind]
  cases hentry : entry t.fsHandles h with
  | none => exact ⟨(Same.refl _ _).step hL, rfl⟩
  | some slot =>
      obtain ⟨i, fd⟩ := slot
      obtain ⟨hi, hfd⟩ := entry_some hentry
      exact ⟨hL.fds.isHeld (i := .inl i) hfd, fun _ _ => ⟨hL.clearFile hfd (hfile i hi), rfl⟩⟩

/-- An operation on the descriptor of a handle. -/
theorem onEntry_keeps {α : Type} (hL : Accounted L t) {h : Int} {i : Fin fsHandleMax} {fd : Nat}
    (hentry : entry t.fsHandles h = some (i, fd)) {x : Sys α} (hx : Uses fd x) :
    Dialogue.Keeps descriptors (fun L' r => Same L t L' r.2) L (x t) :=
  hx L t (hL.fds.isHeld (i := .inl i) (entry_some hentry).2)

theorem fsHandleRead_keeps (hL : Accounted L t) (h want : Int) :
    Dialogue.Keeps descriptors (fun L' r => Same L t L' r.2) L (fsHandleRead h want t) := by
  unfold fsHandleRead
  rw [bind_apply, get_apply, Dialogue.ret_bind]
  dsimp only
  cases hentry : entry t.fsHandles h with
  | none => exact Same.refl L t
  | some slot =>
      refine onEntry_keeps hL hentry ((uses_read _).bind fun answer => ?_)
      split
      · exact .pure _
      · exact .pure _

theorem fsHandleWrite_keeps (hL : Accounted L t) (h : Int) (bytes : Bytes) :
    Dialogue.Keeps descriptors (fun L' r => Same L t L' r.2) L (fsHandleWrite h bytes t) := by
  unfold fsHandleWrite
  rw [bind_apply, get_apply, Dialogue.ret_bind]
  dsimp only
  cases hentry : entry t.fsHandles h with
  | none => exact Same.refl L t
  | some slot =>
      refine onEntry_keeps hL hentry ((uses_write _).bind fun answer => ?_)
      split
      · exact .pure _
      · exact .pure _

theorem fsHandleSeek_keeps (hL : Accounted L t) (h offset whence : Int) :
    Dialogue.Keeps descriptors (fun L' r => Same L t L' r.2) L (fsHandleSeek h offset whence t) := by
  unfold fsHandleSeek
  rw [bind_apply, get_apply, Dialogue.ret_bind]
  dsimp only
  cases hentry : entry t.fsHandles h with
  | none => exact Same.refl L t
  | some slot =>
      obtain ⟨i, fd⟩ := slot
      refine onEntry_keeps hL hentry ?_
      dsimp only
      split
      · exact .pure _
      refine (uses_lseek _ _).bind fun answer => ?_
      split
      · exact .pure _
      · exact .pure _

theorem Step.trans {L' L'' : Ledger} {t' t'' : Tables} (h : Step file find L t L' t')
    (h' : Step file find L' t' L'' t'') : Step file find L t L'' t'' :=
  ⟨h'.accounted, fun hi hkept => h'.files (h.files hi hkept) hkept,
    fun hi hkept => h'.finds (h.finds hi hkept) hkept, Nat.le_trans h.next h'.next⟩

theorem closeAllLoop_keeps (file : Fin fsHandleMax → Prop)
    (find : Fin fsFindMax → Prop) (hL : Accounted L t) (hfile : ∀ i, file i)
    (is : List (Fin fsHandleMax)) :
    Dialogue.Keeps descriptors (fun L' r => Step file find L t L' r.2 ∧ r.2.handles = t.handles) L
      (closeAllLoop is t) := by
  induction is generalizing L t with
  | nil => exact ⟨(Same.refl _ _).step hL, rfl⟩
  | cons i rest ih =>
      unfold closeAllLoop
      rw [bind_apply, get_apply, Dialogue.ret_bind]
      dsimp only
      cases hi : t.fsHandles i with
      | none => exact ih hL
      | some fd =>
          have hstep : Step file find L t _ _ := hL.clearFile hi (hfile i)
          refine ⟨hL.fds.isHeld (i := .inl i) hi, fun _ _ => ?_⟩
          have hrest := ih hstep.accounted
          show Dialogue.Keeps descriptors _ _ (closeAllLoop rest _ >>= _)
          refine Dialogue.keeps_bind.mpr (hrest.mono fun L' r hr => ?_)
          exact ⟨hstep.trans hr.1, hr.2⟩

/-- A search that is opened has a descriptor of its own. -/
theorem fsFindOpen_keeps (file : Fin fsHandleMax → Prop)
    (find : Fin fsFindMax → Prop) (hL : Accounted L t) (dir pattern : Path) :
    Dialogue.Keeps descriptors (fun L' r => Step file find L t L' r.2 ∧ r.2.handles = t.handles ∧
      Searches L r.1 L' r.2 ∧ Small r.1) L (fsFindOpen dir pattern t) := by
  have hnothing : ∀ {L' : Ledger}, L' = L → ∀ result : Int, -100 ≤ result ∧ result ≤ 0 →
      Step file find L t L' t ∧ t.handles = t.handles ∧ Searches L result L' t ∧ Small result := by
    rintro _ rfl result hresult
    exact ⟨(Same.refl _ _).step hL, rfl, fun hpos => by omega, by unfold Small; omega⟩
  unfold fsFindOpen
  rw [bind_apply, get_apply, Dialogue.ret_bind]
  cases hfree : firstFree t.fsFinds with
  | none => exact hnothing rfl fsErrEmfileMapped (by decide)
  | some i =>
      obtain ⟨-, hi⟩ := firstFree_some hfree
      refine ⟨trivial, fun answer hfresh => ?_⟩
      cases answer with
      | error e =>
          refine hnothing rfl _ ?_
          dsimp only
          split
          · decide
          · decide
      | ok stream =>
          let slot : Find :=
            ⟨stream, (if pattern = [] then path "*" else pattern).take 63, dir.take 511⟩
          have hlt : i.val < 8 := i.isLt
          refine ⟨hL.fillFind slot hi hfresh, rfl, fun _ => ⟨i, L.next, rfl, ?_, Nat.le_refl _⟩,
            by unfold Small; omega⟩
          show Option.bind (Option.map _ (Function.update t.fsFinds i _ i))
            (Function.update L.dirs stream.id (some L.next)) = _
          rw [Function.update_self, Option.map_some, Option.bind_some, Function.update_self]

theorem fsFindClose_keeps (file : Fin fsHandleMax → Prop)
    (find : Fin fsFindMax → Prop) (hL : Accounted L t) {h : Int}
    (hfind : ∀ i : Fin fsFindMax, h = i.val → find i) :
    Dialogue.Keeps descriptors (fun L' r => Step file find L t L' r.2 ∧ r.2.handles = t.handles) L
      (fsFindClose h t) := by
  unfold fsFindClose
  rw [bind_apply, get_apply, Dialogue.ret_bind]
  cases hentry : entry t.fsFinds h with
  | none => exact ⟨(Same.refl _ _).step hL, rfl⟩
  | some found =>
      obtain ⟨i, slot⟩ := found
      obtain ⟨hi, hslot⟩ := entry_some hentry
      have hstream : t.stream i = some slot.dir.id := by
        unfold Tables.stream
        rw [hslot]
        rfl
      exact ⟨hL.dirs.isHeld hstream, fun _ _ => ⟨hL.clearFind hslot (hfind i hi), rfl⟩⟩

/-- The names that a search has still to yield do not matter. -/
theorem Accounted.advance (hL : Accounted L t) {i : Fin fsFindMax} {slot slot' : Find}
    (hi : t.fsFinds i = some slot) (hid : slot'.dir.id = slot.dir.id) :
    Step file find L t L { t with fsFinds := Function.update t.fsFinds i (some slot') } := by
  have hstream : Tables.stream { t with fsFinds := Function.update t.fsFinds i (some slot') } =
      t.stream := by
    rw [stream_fsFinds, Option.map_some, hid]
    refine Function.update_eq_self_iff.mpr ?_
    unfold Tables.stream
    rw [hi]
    rfl
  refine ⟨⟨hL.fds, ?_⟩, fun hfile _ => hfile, fun hfind _ => ?_, Nat.le_refl _⟩
  · rw [hstream]
    exact hL.dirs
  · unfold Tables.findOf
    rw [hstream]
    exact hfind

/-- A search goes on with the descriptor it has. -/
theorem fsFindNext_keeps (file : Fin fsHandleMax → Prop)
    (find : Fin fsFindMax → Prop) (hL : Accounted L t) (fnmatch : Path → Path → Bool) (h : Int) :
    Dialogue.Keeps descriptors (fun L' r => Step file find L t L' r.2 ∧ r.2.handles = t.handles) L
      (fsFindNext fnmatch h t) := by
  unfold fsFindNext
  rw [bind_apply, get_apply, Dialogue.ret_bind]
  cases hentry : entry t.fsFinds h with
  | none => exact ⟨(Same.refl _ _).step hL, rfl⟩
  | some found =>
      obtain ⟨i, slot⟩ := found
      obtain ⟨hi, hslot⟩ := entry_some hentry
      dsimp only
      rw [bind_apply, modify_apply, Dialogue.ret_bind]
      have hstep : Step file find L t L { t with fsFinds := Function.update t.fsFinds i (some
          { slot with dir := { slot.dir with
              names := (findNextLoop fnmatch slot.pattern slot.dir.names).2 } }) } :=
        hL.advance hslot rfl
      cases (findNextLoop fnmatch slot.pattern slot.dir.names).1 with
      | none => exact ⟨hstep, rfl⟩
      | some name =>
          dsimp only
          cases childOf slot.realDir name with
          | none => exact ⟨hstep, rfl⟩
          | some full => exact ⟨trivial, fun _ _ => ⟨hstep, rfl⟩⟩

/-- Seeking, writing and closing with the descriptor of an entry. -/
theorem cmptWriteOn_keeps (file : Fin fsHandleMax → Prop)
    (find : Fin fsFindMax → Prop) (hL : Accounted L t) (req : CmptWriteReq) {i : Fin maxOpenHandles}
    {fd : Nat} (hi : t.handles i = some fd) :
    Dialogue.Keeps descriptors (fun L' r => Step file find L t L' r.2) L
      (cmptWriteOn req i fd t) := by
  have hopen : L.fds fd ≠ none := hL.fds.isHeld (i := .inr i) hi
  unfold cmptWriteOn
  rw [bind_apply, Dialogue.keeps_bind]
  refine (cmptSeek_uses _ _ _ L t hopen).mono fun L₁ r₁ h₁ => ?_
  obtain ⟨sought, t₁⟩ := r₁
  have hL₁ : Step file find L t L₁ t₁ := h₁.step hL
  cases sought with
  | some e => exact hL₁
  | none =>
      have hopen₁ : L₁.fds fd ≠ none := by
        rw [h₁.fds]
        exact hopen
      show Dialogue.Keeps descriptors _ _ (cmptPut req fd t₁ >>= _)
      refine Dialogue.keeps_bind.mpr ((cmptPut_uses req L₁ t₁ hopen₁).mono fun L₂ r₂ h₂ => ?_)
      obtain ⟨put, t₂⟩ := r₂
      have hL₂ : Step file find L₁ t₁ L₂ t₂ := h₂.step hL₁.accounted
      cases put with
      | some e => exact hL₁.trans hL₂
      | none =>
          have hi₂ : t₂.handles i = some fd := by
            have ht₁ : t₁ = t := h₁.tables
            have ht₂ : t₂ = t₁ := h₂.tables
            rw [ht₂, ht₁]
            exact hi
          dsimp only
          split
          · exact ⟨hL₂.accounted.fds.isHeld (i := .inr i) hi₂, fun _ _ =>
              (hL₁.trans hL₂).trans (hL₂.accounted.clearHandle hi₂)⟩
          · exact hL₁.trans hL₂

theorem handleGetFd_some {handle : Int} {i : Fin maxOpenHandles} {fd : Nat}
    (h : handleGetFd t handle = some (i, fd)) : t.handles i = some fd := by
  unfold handleGetFd at h
  split at h
  · obtain ⟨fd', hfd, hpair⟩ := Option.map_eq_some_iff.mp h
    cases hpair
    exact hfd
  · cases h

/-- **The compound write accounts for its descriptor.** -/
theorem handleCmptWrite_keeps (file : Fin fsHandleMax → Prop)
    (find : Fin fsFindMax → Prop) (hL : Accounted L t) (req : CmptWriteReq) (real : Path) :
    Dialogue.Keeps descriptors (fun L' r => Step file find L t L' r.2) L
      (handleCmptWrite req real t) := by
  have hsame : Step file find L t L t := (Same.refl L t).step hL
  unfold handleCmptWrite
  split
  · split
    · split
      · exact hsame
      refine ⟨trivial, fun answer hfresh => ?_⟩
      cases answer with
      | error e => exact hsame
      | ok fd =>
          show Dialogue.Keeps descriptors _ _ (((get : Sys Tables) >>= _) t)
          rw [bind_apply, get_apply, Dialogue.ret_bind]
          dsimp only
          cases hfound : (List.finRange maxOpenHandles).find? fun i => (t.handles i).isNone with
          | none =>
              -- no entry is free: the descriptor is closed again
              refine ⟨?_, fun _ _ => Same.step ⟨?_, rfl, Nat.le_succ _, rfl⟩ hL⟩
              · show Function.update L.fds fd (some L.next) fd ≠ none
                rw [Function.update_self]
                nofun
              · show Function.update (Function.update L.fds fd (some L.next)) fd none = _
                rw [Function.update_idem]
                exact Function.update_eq_self_iff.mpr hfresh.symm
          | some i =>
              have hnone := List.find?_some hfound
              have hi : t.handles i = none := Option.isNone_iff_eq_none.mp hnone
              have hfill : Step file find L t _ _ := hL.fillHandle hi hfresh
              exact (cmptWriteOn_keeps file find hfill.accounted req (Function.update_self ..)).mono
                fun L' r hr => hfill.trans hr
    · exact hsame
  · rw [bind_apply, get_apply, Dialogue.ret_bind]
    dsimp only
    cases hfound : handleGetFd t req.fileHandle with
    | none => exact hsame
    | some slot => exact cmptWriteOn_keeps file find hL req (handleGetFd_some hfound)

end Requests

/-! ### Compound writes that come to their closing -/

/-- The file system lets a compound write that opens come to its closing: there is one, and
nothing in front of it fails. -/
def CmptWriteReq.Reaches (req : CmptWriteReq) : (c : Call) → Answer c → Prop
  | .open _ _, .ok _ => req.opidMap.testBit 4 = true
  | .lseek _ _ _, .error _ => False
  | .write _ _, .error _ => False
  | _, _ => True

/-- The assumption on the calls of a compound write. -/
def reaching (req : CmptWriteReq) : Contract Call Answer Unit :=
  ⟨fun _ _ => True, fun _ c answer => req.fileHandle < 0 → req.Reaches c answer, fun _ _ _ => ()⟩

theorem cmptSeek_reaches {req : CmptWriteReq} (hnew : req.fileHandle < 0) {t : Tables} (fd : Nat) :
    Dialogue.Keeps (reaching req) (fun _ r => r = (none, t)) ()
      (cmptSeek (req.opidMap.testBit 2) fd req.offset req.whence t) := by
  unfold cmptSeek
  split
  · refine ⟨trivial, fun answer hreaches => ?_⟩
    cases answer with
    | error e => exact (hreaches hnew).elim
    | ok pos => exact rfl
  · exact rfl

theorem cmptPut_reaches {req : CmptWriteReq} (hnew : req.fileHandle < 0) {t : Tables} (fd : Nat) :
    Dialogue.Keeps (reaching req) (fun _ r => r = (none, t)) () (cmptPut req fd t) := by
  unfold cmptPut
  split
  · refine ⟨trivial, fun answer hreaches => ?_⟩
    cases answer with
    | error e => exact (hreaches hnew).elim
    | ok put => exact rfl
  · exact rfl

theorem cmptWriteOn_reaches {req : CmptWriteReq} (hnew : req.fileHandle < 0)
    (hclose : req.opidMap.testBit 4 = true) {t : Tables} (i : Fin maxOpenHandles) (fd : Nat) :
    Dialogue.Keeps (reaching req)
      (fun _ r => r.2 = { t with handles := Function.update t.handles i none }) ()
      (cmptWriteOn req i fd t) := by
  unfold cmptWriteOn
  rw [bind_apply, Dialogue.keeps_bind]
  refine (cmptSeek_reaches hnew fd).mono fun _ r hr => ?_
  subst hr
  show Dialogue.Keeps (reaching req) _ _ (cmptPut req fd t >>= _)
  refine Dialogue.keeps_bind.mpr ((cmptPut_reaches hnew fd).mono fun _ r hr => ?_)
  subst hr
  dsimp only
  rw [if_pos hclose]
  exact ⟨trivial, fun _ _ => rfl⟩

/-- **A compound write that comes to its closing leaves no descriptor.** -/
theorem handleCmptWrite_reaches {t : Tables} (hempty : ∀ i, t.handles i = none)
    (req : CmptWriteReq) (real : Path) :
    Dialogue.Keeps (reaching req) (fun _ r => ∀ i, r.2.handles i = none) ()
      (handleCmptWrite req real t) := by
  unfold handleCmptWrite
  split
  · rename_i hnew
    split
    · split
      · exact hempty
      refine ⟨trivial, fun answer hreaches => ?_⟩
      cases answer with
      | error e => exact hempty
      | ok fd =>
          have hclose : req.opidMap.testBit 4 = true := hreaches hnew
          show Dialogue.Keeps (reaching req) _ _ (((get : Sys Tables) >>= _) t)
          rw [bind_apply, get_apply, Dialogue.ret_bind]
          dsimp only
          cases (List.finRange maxOpenHandles).find? fun i => (t.handles i).isNone with
          | none => exact ⟨trivial, fun _ _ => hempty⟩
          | some i =>
              refine (cmptWriteOn_reaches hnew hclose i fd).mono fun _ r hr j => ?_
              rw [hr]
              show Function.update (Function.update t.handles i (some fd)) i none j = none
              rw [Function.update_idem]
              by_cases hj : j = i
              · rw [hj, Function.update_self]
              · rw [Function.update_of_ne hj]
                exact hempty j
    · exact hempty
  · rw [bind_apply, get_apply, Dialogue.ret_bind]
    dsimp only
    cases hfound : handleGetFd t req.fileHandle with
    | none => exact hempty
    | some slot =>
        have hslot := handleGetFd_some hfound
        rw [hempty] at hslot
        cases hslot

end Mindone.Fsd
