import Mathlib.Data.List.Induction
import Mindone.Fingerprint.LockoutStore

/-!
# Mindone.Fingerprint.LockoutHistory

Histories of the lockout store: any calls of `save` and `load`, each of which may fail or be cut
off at any file operation, on a directory that was empty at first. `Told` says what the files are
behind a history: those of the last `save` that renamed anything, or the ones that a `load` has
made. **What a later `load` accepts is read off there** (`lockoutStore_failsClosed`).
-/

namespace Mindone.Fingerprint

open Mindone.Lib

/-- A call, with the outcomes of its file operations; it is cut off where they end. -/
inductive Call
  | save (state : State) (outcomes : List Outcome)
  | load (outcomes : List Outcome)

/-- A disk on which the next operations end so. -/
def Disk.with (disk : Disk) (outcomes : List Outcome) : Disk := { disk with outcomes := outcomes }

/-- No file is there. -/
def Disk.fresh : Disk := ⟨fun _ => none, fun _ => none, 0, []⟩

section Histories

variable (userId : BitVec 32)

/-- The disk behind a call. -/
def Call.run (disk : Disk) : Call → Disk
  | .save state outcomes => endState (Fingerprint.save userId state (disk.with outcomes))
  | .load outcomes => endState (Fingerprint.load userId (disk.with outcomes))

/-- How many renames of a save took effect. -/
def Call.renames (disk : Disk) (call : Call) : Nat :=
  match call with
  | .save _ _ => (call.run userId disk).renames - disk.renames
  | .load _ => 0

def runCalls (disk : Disk) (calls : List Call) : Disk := calls.foldl (Call.run userId) disk

/-- No save of these has got as far as its first rename. -/
def Untouched (disk : Disk) : List Call → Prop
  | [] => True
  | call :: calls => call.renames userId disk = 0 ∧ Untouched (call.run userId disk) calls

variable {userId}

theorem untouched_snoc {disk : Disk} {calls : List Call} {call : Call} :
    Untouched userId disk (calls ++ [call]) ↔
      Untouched userId disk calls ∧ call.renames userId (runCalls userId disk calls) = 0 := by
  induction calls generalizing disk with
  | nil => exact ⟨fun h => ⟨trivial, h.1⟩, fun h => ⟨h.2, trivial⟩⟩
  | cons c calls ih =>
      show _ ∧ Untouched userId (c.run userId disk) (calls ++ [call]) ↔ _
      rw [ih]
      exact and_assoc.symm

theorem runCalls_append (disk : Disk) (calls later : List Call) :
    runCalls userId disk (calls ++ later) = runCalls userId (runCalls userId disk calls) later :=
  List.foldl_append

/-- A save leaves the files behind as many of its renames as it counts. -/
theorem save_run (disk : Disk) (state : State) (outcomes : List Outcome) :
    (Call.save state outcomes).renames userId disk ≤ 3 ∧
      disk.Behind (saveWrites userId state) ((Call.save state outcomes).renames userId disk)
        ((Call.save state outcomes).run userId disk) := by
  have hends : ∃ k, k ≤ 3 ∧ disk.Behind (saveWrites userId state) k
      ((Call.save state outcomes).run userId disk) := by
    have hends := @save_ends userId state (disk.with outcomes)
    exact ends_endState.mp (hends.mono (fun _ _ h => h.imp fun _ hk => ⟨hk.1, hk.2.1⟩)
      fun _ _ h => h)
  obtain ⟨k, hk, hbehind⟩ := hends
  have hcount : (Call.save state outcomes).renames userId disk = k := by
    show ((Call.save state outcomes).run userId disk).renames - disk.renames = k
    rw [hbehind.2, Nat.add_sub_cancel_left]
  rw [hcount]
  exact ⟨hk, hbehind⟩

/-- A save that returns `true` has made its three renames. -/
theorem save_ok {disk disk' : Disk} {state : State} {outcomes : List Outcome}
    (h : save userId state (disk.with outcomes) = .ok true disk') :
    (Call.save state outcomes).renames userId disk = 3 ∧
      disk.Behind (saveWrites userId state) 3 disk' := by
  obtain ⟨k, -, hbehind, hall⟩ := (@save_ends userId state (disk.with outcomes)).of_ok h
  obtain rfl := hall rfl
  refine ⟨?_, hbehind⟩
  show (endState (save userId state (disk.with outcomes))).renames - disk.renames = 3
  rw [h]
  show disk'.renames - disk.renames = 3
  rw [hbehind.2]
  exact Nat.add_sub_cancel_left _ _

theorem load_run (disk : Disk) (outcomes : List Outcome) :
    disk.Loaded userId none ((Call.load outcomes).run userId disk) := by
  have := (@load_ends userId (disk.with outcomes)).mono
    (fun result disk' h => show disk.Loaded userId none disk' from by
      rcases h with ⟨hseen, hlockout, k, hk, hbehind, -⟩ | ⟨hsame, -⟩
      · exact .inl ⟨hseen, hlockout, k, hk, hbehind, nofun⟩
      · exact .inr ⟨hsame, nofun⟩) fun _ _ h => h
  exact ends_endState.mp this

/-- What a `load` that returns `true` has found. -/
theorem load_ok {disk disk' : Disk} {outcomes : List Outcome} {s : State}
    (h : load userId (disk.with outcomes) = .ok (some s) disk') :
    disk.Loaded userId (some s) disk' :=
  (@load_ends userId (disk.with outcomes)).of_ok h

/-! ### What the files are -/

def marker (userId : BitVec 32) : List Byte := (encode userId .empty kMarkerMagic).bytes

def pending (userId : BitVec 32) : List Byte := (encode userId .empty kPendingMagic).bytes

theorem pending_ne_marker : pending userId ≠ marker userId := by
  intro heq
  have hrecord : encode userId .empty kPendingMagic = encode userId .empty kMarkerMagic :=
    Record.eq_of_bytes heq
  have hmagic := congrArg (fun record => Record.get record 0 4) hrecord
  have hpending : (encode userId .empty kPendingMagic).get 0 4 = kPendingMagic :=
    get_encode_magic _ fun j hj => fits_setWidth 0x31575046 j hj
  have hmarker : (encode userId .empty kMarkerMagic).get 0 4 = kMarkerMagic :=
    get_encode_magic _ fun j hj => fits_setWidth 0x314d5046 j hj
  rw [hpending, hmarker] at hmagic
  exact absurd hmagic (by decide)

/-- No save has renamed anything: what a `load` may have made is there. -/
def Disk.Initial (userId : BitVec 32) (disk : Disk) : Prop :=
  (disk.file .seen = none ∧ disk.file .lockout = none) ∨
  (disk.file .seen = some (marker userId) ∧
    (disk.file .lockout = none ∨
      disk.file .lockout = some (encode userId .empty kMagic).bytes))

/-- So many renames of the last save that has renamed anything. -/
structure Disk.Saved (userId : BitVec 32) (disk : Disk) (state : State) (k : Nat) : Prop where
  some : 1 ≤ k
  all : k ≤ 3
  partway : k < 3 → disk.file .seen = Option.some (pending userId)
  complete : k = 3 → disk.file .seen = Option.some (marker userId) ∧
    disk.file .lockout = Option.some (encode userId state kMagic).bytes

/-- What the files are behind a history. -/
def Told (userId : BitVec 32) (calls : List Call) : Prop :=
  (Untouched userId .fresh calls ∧ (runCalls userId .fresh calls).Initial userId) ∨
  ∃ before state outcomes later, calls = before ++ .save state outcomes :: later ∧
    Untouched userId ((Call.save state outcomes).run userId (runCalls userId .fresh before)) later ∧
    (runCalls userId .fresh calls).Saved userId state
      ((Call.save state outcomes).renames userId (runCalls userId .fresh before))

theorem Disk.Saved.same {disk disk' : Disk} {state : State} {k : Nat}
    (h : disk.Saved userId state k) (hsame : disk.Same disk') : disk'.Saved userId state k where
  some := h.some
  all := h.all
  partway := by
    rw [hsame.1]
    exact h.partway
  complete := by
    rw [hsame.1]
    exact h.complete

/-- A save that has renamed something. -/
theorem saved_of_behind {disk disk' : Disk} {state : State} {k : Nat} (hk : k ≤ 3) (hk₀ : k ≠ 0)
    (h : disk.Behind (saveWrites userId state) k disk') : disk'.Saved userId state k := by
  refine ⟨by omega, hk, fun hlt => ?_, ?_⟩
  · rw [h.1]
    obtain rfl | rfl : k = 1 ∨ k = 2 := by omega
    · rfl
    · rfl
  · rintro rfl
    rw [h.1]
    exact ⟨rfl, rfl⟩

/-- What a `load` does to the files of no save. -/
theorem Disk.Initial.loaded {disk disk' : Disk} (h : disk.Initial userId)
    (hloaded : disk.Loaded userId none disk') : disk'.Initial userId := by
  rcases hloaded with ⟨hseen, hlockout, k, hk, hbehind, -⟩ | ⟨hsame, -⟩
  · unfold Disk.Initial
    rw [hbehind.1]
    obtain rfl | rfl | rfl : k = 0 ∨ k = 1 ∨ k = 2 := by omega
    · exact .inl ⟨hseen, hlockout⟩
    · exact .inr ⟨rfl, .inl hlockout⟩
    · exact .inr ⟨rfl, .inr rfl⟩
  · unfold Disk.Initial
    rw [hsame.1]
    exact h

/-- The marker of a save is there, so that a `load` changes nothing. -/
theorem Disk.Saved.loaded {disk disk' : Disk} {state : State} {k : Nat} {result : Option State}
    (h : disk.Saved userId state k) (hloaded : disk.Loaded userId result disk') :
    disk.Same disk' ∧ ∀ s, result = Option.some s → disk.Visible userId s := by
  refine hloaded.resolve_left ?_
  rintro ⟨hseen, -⟩
  rcases Nat.lt_or_ge k 3 with hlt | hge
  · rw [h.partway hlt] at hseen
    cases hseen
  · rw [(h.complete (by have := h.all; omega)).1] at hseen
    cases hseen

/-- **The files behind every history.** -/
theorem told (calls : List Call) : Told userId calls := by
  induction calls using List.reverseRecOn with
  | nil => exact .inl ⟨trivial, .inl ⟨rfl, rfl⟩⟩
  | append_singleton calls call ih =>
      have hrun : runCalls userId .fresh (calls ++ [call]) =
          call.run userId (runCalls userId .fresh calls) := by
        rw [runCalls_append]
        rfl
      -- a call that renames nothing keeps what is told
      have hquiet : call.renames userId (runCalls userId .fresh calls) = 0 →
          ((runCalls userId .fresh calls).Initial userId →
            (call.run userId (runCalls userId .fresh calls)).Initial userId) →
          (∀ state k, (runCalls userId .fresh calls).Saved userId state k →
            (call.run userId (runCalls userId .fresh calls)).Saved userId state k) →
          Told userId (calls ++ [call]) := by
        intro hzero hinitial hsaved
        rcases ih with ⟨huntouched, hfiles⟩ | ⟨before, state, outcomes, later, hcalls, huntouched, hfiles⟩
        · refine .inl ⟨untouched_snoc.mpr ⟨huntouched, hzero⟩, ?_⟩
          rw [hrun]
          exact hinitial hfiles
        · refine .inr ⟨before, state, outcomes, later ++ [call], ?_, untouched_snoc.mpr
            ⟨huntouched, ?_⟩, ?_⟩
          · rw [hcalls, List.append_assoc]
            rfl
          · rw [hcalls, runCalls_append] at hzero
            exact hzero
          · rw [hrun]
            exact hsaved _ _ hfiles
      cases call with
      | load outcomes =>
          have hloaded := @load_run userId (runCalls userId .fresh calls) outcomes
          exact hquiet rfl (fun hinitial => hinitial.loaded hloaded) fun state k hsaved =>
            hsaved.same (hsaved.loaded hloaded).1
      | save state outcomes =>
          obtain ⟨hk, hbehind⟩ := @save_run userId (runCalls userId .fresh calls) state outcomes
          by_cases hzero : (Call.save state outcomes).renames userId (runCalls userId .fresh calls) = 0
          · rw [hzero] at hbehind
            refine hquiet hzero (fun hinitial => ?_) fun _ _ hsaved => hsaved.same hbehind
            unfold Disk.Initial
            rw [hbehind.1]
            exact hinitial
          · refine .inr ⟨calls, state, outcomes, [], rfl, trivial, ?_⟩
            rw [hrun]
            exact saved_of_behind hk hzero hbehind

/-- What is in a file that was written for a state. -/
theorem eq_of_visible {disk : Disk} {state s : State}
    (hlockout : disk.file .lockout = some (encode userId state kMagic).bytes)
    (hvisible : disk.Visible userId s) : s = state := by
  obtain ⟨record, hrecord, hdecode, -⟩ := hvisible
  have heq : record = encode userId state kMagic :=
    Record.eq_of_bytes (Option.some_inj.mp (hrecord.symm.trans hlockout))
  rw [heq] at hdecode
  exact (decode_encode_iff.mp hdecode).2

/-- Where a state that a `load` returns comes from. -/
def Source (userId : BitVec 32) (calls : List Call) (s : State) : Prop :=
  (∃ before outcomes later, calls = before ++ .save s outcomes :: later ∧
    (Call.save s outcomes).renames userId (runCalls userId .fresh before) = 3 ∧
    Untouched userId ((Call.save s outcomes).run userId (runCalls userId .fresh before)) later) ∨
  (s = .empty ∧ Untouched userId .fresh calls) ∨ s.failed = 20

/-- **A load returns what was saved**, or all 20 failures. -/
theorem load_source {calls : List Call} {outcomes : List Outcome} {s : State} {disk' : Disk}
    (h : load userId ((runCalls userId .fresh calls).with outcomes) = .ok (some s) disk') :
    Source userId calls s := by
  have hloaded := load_ok h
  rcases @told userId calls with
    ⟨huntouched, hfiles⟩ | ⟨before, state, outcomes', later, hcalls, huntouched, hfiles⟩
  · refine .inr (.inl ⟨?_, huntouched⟩)
    rcases hloaded with ⟨-, -, k, -, -, hresult⟩ | ⟨-, hvisible⟩
    · exact (hresult s rfl).2
    · have hvisible := hvisible s rfl
      rcases hfiles with ⟨-, hnone⟩ | ⟨-, hnone | hempty⟩
      · obtain ⟨record, hrecord, -⟩ := hvisible
        rw [hnone] at hrecord
        cases hrecord
      · obtain ⟨record, hrecord, -⟩ := hvisible
        rw [hnone] at hrecord
        cases hrecord
      · exact eq_of_visible hempty hvisible
  · have hvisible := (hfiles.loaded hloaded).2 s rfl
    rcases Nat.lt_or_ge ((Call.save state outcomes').renames userId
      (runCalls userId .fresh before)) 3 with hlt | hge
    · -- the pending marker is there
      obtain ⟨record, -, -, hmarker | hfailed⟩ := hvisible
      · rw [hfiles.partway hlt, Option.some_inj] at hmarker
        exact absurd hmarker pending_ne_marker
      · exact .inr (.inr hfailed)
    · have hthree : (Call.save state outcomes').renames userId (runCalls userId .fresh before) = 3 := by
        have := hfiles.all
        omega
      obtain rfl := eq_of_visible (hfiles.complete hthree).2 hvisible
      exact .inl ⟨before, outcomes', later, hcalls, hthree, huntouched⟩

/-- The state that was loaded is there. -/
theorem visible_of_load {disk disk' : Disk} {outcomes : List Outcome} {s : State}
    (h : load userId (disk.with outcomes) = .ok (some s) disk') : disk'.Visible userId s := by
  rcases load_ok h with ⟨-, -, k, -, hbehind, hresult⟩ | ⟨hsame, hvisible⟩
  · obtain ⟨rfl, rfl⟩ := hresult s rfl
    refine ⟨encode userId .empty kMagic, ?_, decode_encode State.empty_allowed, .inl ?_⟩
    · rw [hbehind.1]
      rfl
    · rw [hbehind.1]
      rfl
  · obtain ⟨record, hrecord, hdecode, hmarker⟩ := hvisible s rfl
    refine ⟨record, ?_, hdecode, ?_⟩
    · rw [hsame.1]
      exact hrecord
    · rw [hsame.1]
      exact hmarker

/-- **A save, however it ends, leaves the old state to be seen, the new one, or none.** -/
theorem load_save_load {disk disk₁ disk₃ : Disk} {outcomes₁ outcomes₂ outcomes₃ : List Outcome}
    {before state after : State} (h₁ : load userId (disk.with outcomes₁) = .ok (some before) disk₁)
    (h₃ : load userId (((Call.save state outcomes₂).run userId disk₁).with outcomes₃) =
      .ok (some after) disk₃) : after = before ∨ after = state := by
  obtain ⟨record, hrecord, hdecode, -⟩ := visible_of_load h₁
  obtain ⟨hk, hbehind⟩ := @save_run userId disk₁ state outcomes₂
  generalize (Call.save state outcomes₂).renames userId disk₁ = k at hk hbehind
  generalize (Call.save state outcomes₂).run userId disk₁ = disk₂ at hbehind h₃
  have hlockout : disk₂.file .lockout = some record.bytes ∨
      disk₂.file .lockout = some (encode userId state kMagic).bytes := by
    rw [hbehind.1]
    obtain rfl | rfl | rfl | rfl : k = 0 ∨ k = 1 ∨ k = 2 ∨ k = 3 := by omega
    · exact .inl hrecord
    · exact .inl hrecord
    · exact .inr rfl
    · exact .inr rfl
  have hvisible : disk₂.Visible userId after := by
    refine ((load_ok h₃).resolve_left ?_).2 after rfl
    rintro ⟨-, hnone, -⟩
    rw [hnone] at hlockout
    rcases hlockout with h | h <;> cases h
  rcases hlockout with hold | hnew
  · obtain ⟨record', hrecord', hdecode', -⟩ := hvisible
    have heq : record' = record :=
      Record.eq_of_bytes (Option.some_inj.mp (hrecord'.symm.trans hold))
    rw [heq, hdecode, Option.some_inj] at hdecode'
    exact .inl hdecode'.symm
  · exact .inr (eq_of_visible hnew hvisible)

end Histories

/-- **The lockout store fails closed.** Whatever the calls and wherever they fail or are cut off, a
`load` returns `true` only with the last state that was saved completely, with the empty one while
none was saved, or with all 20 failures; so no call makes a count visible that is smaller than both
the one before and the new one. A save that returns `true` is complete. A file is accepted only as
a record of 32 bytes that decodes; a record of another user, or one changed within 32 consecutive
bits, does not, and every state that `decode` allows is read back as it was. -/
theorem lockoutStore_failsClosed (userId : BitVec 32) :
    (∀ calls outcomes s disk',
      load userId ((runCalls userId .fresh calls).with outcomes) = .ok (some s) disk' →
        Source userId calls s) ∧
    (∀ calls outcomes₁ outcomes₂ outcomes₃ before state after disk₁ disk₃,
      load userId ((runCalls userId .fresh calls).with outcomes₁) = .ok (some before) disk₁ →
      load userId (((Call.save state outcomes₂).run userId disk₁).with outcomes₃) =
        .ok (some after) disk₃ →
      min before.failed.toNat state.failed.toNat ≤ after.failed.toNat) ∧
    (∀ disk state outcomes disk', save userId state (disk.with outcomes) = .ok true disk' →
      (Call.save state outcomes).renames userId disk = 3) ∧
    (∀ disk bytes, disk.file .lockout = some bytes →
      (bytes.length ≠ 32 ∨ ∃ record : Record, bytes = record.bytes ∧ decode userId record = none) →
      ∀ s disk', load userId disk ≠ .ok (some s) disk') ∧
    (∀ other record s, other ≠ userId → decode other record = some s →
      decode userId record = none) ∧
    (∀ (r r' : Record) s i, decode userId r = some s → r' ≠ r →
      (∀ k, k < i ∨ i + 32 ≤ k → r'.bits.getD k false = r.bits.getD k false) →
      decode userId r' = none) ∧
    ∀ s : State, s.Allowed → decode userId (encode userId s kMagic) = some s := by
  refine ⟨fun calls outcomes s disk' h => load_source h, ?_,
    fun disk state outcomes disk' h => (save_ok h).1, ?_, ?_, ?_, ?_⟩
  · intro calls outcomes₁ outcomes₂ outcomes₃ before state after disk₁ disk₃ h₁ h₃
    -- What is loaded after a save is the state before it or the new one.
    rcases load_save_load h₁ h₃ with rfl | rfl
    · exact Nat.min_le_left _ _
    · exact Nat.min_le_right _ _
  · intro disk bytes hlockout hbad s disk' h
    rcases (@load_ends userId disk).of_ok h with ⟨-, hnone, -⟩ | ⟨-, hvisible⟩
    · rw [hlockout] at hnone
      cases hnone
    -- What is loaded is a record that decodes.
    · obtain ⟨record, hrecord, hdecode, -⟩ := hvisible s rfl
      rw [hlockout, Option.some_inj] at hrecord
      rcases hbad with hlength | ⟨record', hbytes, hnone⟩
      · rw [hrecord] at hlength
        exact hlength record.size
      · have heq : record' = record := Record.eq_of_bytes (hbytes.symm.trans hrecord)
        rw [heq, hdecode] at hnone
        cases hnone
  · exact fun other record s hother h => decode_other hother h
  · exact fun r r' s i h hne hwindow => decode_burst h hne hwindow
  · exact fun s hs => decode_encode hs

/-! ### A store in use -/

/-- What a `load` returns. -/
def loaded (userId : BitVec 32) (disk : Disk) : Option State :=
  match load userId disk with
  | .ok result _ => result
  | .error _ _ => none

theorem load_of_loaded {userId : BitVec 32} {disk : Disk} {s : State}
    (h : loaded userId disk = some s) :
    load userId disk = .ok (some s) (endState (load userId disk)) := by
  unfold loaded at h
  cases hload : load userId disk with
  | ok result disk' =>
      rw [hload] at h
      rw [← h]
      rfl
  | error e disk' =>
      rw [hload] at h
      cases h

/-- Whether a `save` returns `true`. -/
def saved (userId : BitVec 32) (state : State) (disk : Disk) : Bool :=
  match save userId state disk with
  | .ok ok _ => ok
  | .error _ _ => false

theorem save_of_saved {userId : BitVec 32} {state : State} {disk : Disk}
    (h : saved userId state disk = true) :
    save userId state disk = .ok true (endState (save userId state disk)) := by
  unfold saved at h
  cases hsave : save userId state disk with
  | ok ok disk' =>
      rw [hsave] at h
      rw [← h]
      rfl
  | error e disk' =>
      rw [hsave] at h
      cases h

/-- So many operations succeed, and then the machine stops. -/
def succeed (n : Nat) : List Outcome := List.replicate n .ok

def sevenFailures : State := ⟨7, 2, 0⟩
def eightFailures : State := ⟨8, 3, 0⟩
def twentyFailures : State := ⟨20, 0, 0⟩

/-- The disk behind a complete save of seven failures. -/
def savedSeven : Disk := runCalls 10 .fresh [.save sevenFailures (succeed 21)]

/-- That disk without the last byte of the record. -/
def cutSeven : Disk where
  file := Function.update savedSeven.file .lockout
    (some ((encode 10 sevenFailures kMagic).bytes.take 31))
  temporary := savedSeven.temporary
  renames := savedSeven.renames
  outcomes := succeed 50

/-- A complete save of seven failures; one of eight that stops before its first rename, so that
seven are loaded; and one of twenty that stops behind its second rename, so that twenty are loaded
without their marker. The record of seven is its user's only, and not accepted when a byte of its
file is missing or changed. -/
theorem lockoutStore_failsClosed_cut :
    (Call.save sevenFailures (succeed 21)).renames 10 .fresh = 3 ∧
    Source 10 [.save sevenFailures (succeed 21), .save eightFailures (succeed 5)] sevenFailures ∧
    min 7 20 ≤ 20 ∧
    Source 10 [.save sevenFailures (succeed 21), .save twentyFailures (succeed 12)]
      twentyFailures ∧
    (∀ s disk', load 10 cutSeven ≠ .ok (some s) disk') ∧
    decode 11 (encode 10 sevenFailures kMagic) = none ∧
    decode 10 ((encode 10 sevenFailures kMagic).set 12 6) = none := by
  obtain ⟨hsource, hcount, hcomplete, hsize, -, hchanged, hown⟩ := lockoutStore_failsClosed 10
  -- The runs on the disk are evaluated; what follows from them is the theorem's.
  have hseven : decode 10 (encode 10 sevenFailures kMagic) = some sevenFailures :=
    hown _ ⟨by decide, by decide, by decide, by decide, nofun, by decide⟩
  have hsaved : saved 10 sevenFailures (Disk.fresh.with (succeed 21)) = true := by decide +kernel
  have hbefore : loaded 10 (savedSeven.with (succeed 50)) = some sevenFailures := by
    decide +kernel
  have hkept : loaded 10 ((runCalls 10 .fresh [.save sevenFailures (succeed 21),
      .save eightFailures (succeed 5)]).with (succeed 50)) = some sevenFailures := by
    decide +kernel
  have hafter : loaded 10 (((Call.save twentyFailures (succeed 12)).run 10
      (endState (load 10 (savedSeven.with (succeed 50))))).with (succeed 50)) =
        some twentyFailures := by
    decide +kernel
  have htwenty : loaded 10 ((runCalls 10 .fresh [.save sevenFailures (succeed 21),
      .save twentyFailures (succeed 12)]).with (succeed 50)) = some twentyFailures := by
    decide +kernel
  refine ⟨hcomplete _ _ _ _ (save_of_saved hsaved), hsource _ _ _ _ (load_of_loaded hkept),
    hcount [.save sevenFailures (succeed 21)] _ _ _ _ _ _ _ _ (load_of_loaded hbefore)
      (load_of_loaded hafter),
    hsource _ _ _ _ (load_of_loaded htwenty), ?_,
    (lockoutStore_failsClosed 11).2.2.2.2.1 10 _ _ (by decide) hseven, ?_⟩
  -- A file one byte short is not accepted.
  · have hcut : cutSeven.file .lockout =
        some ((encode 10 sevenFailures kMagic).bytes.take 31) := by
      show Function.update savedSeven.file .lockout _ .lockout = _
      exact Function.update_self ..
    refine hsize _ _ hcut (.inl ?_)
    rw [List.length_take, Record.size]
    decide
  · refine hchanged _ _ sevenFailures 96 hseven (by decide +kernel) fun k hk => ?_
    -- no bit outside the window belongs to the byte that is changed
    have hbyte : 12 ≠ k / 8 := by omega
    have hsame : ((encode 10 sevenFailures kMagic).set 12 6).byte (k / 8) =
        (encode 10 sevenFailures kMagic).byte (k / 8) :=
      (byte_set _ _ _ (by decide)).trans (if_neg hbyte)
    rw [Record.bits, Record.bits, getD_bits, getD_bits]
    exact congrArg (·.getLsbD (k % 8)) hsame

end Mindone.Fingerprint
