import Mindone.Gauge.ShadowLog
import Mathlib.Data.List.Induction

/-!
# Mindone.Gauge.ShadowLogShape

**The shape of the log**: whatever fails, a file is the header and whole lines, in their order, and
within its limit; a line whose append returned is in one of the two files until it is replaced by a
later rotation. The one thing that breaks this is a short write that cannot be taken back: the piece
stays in the file, and the next line is written behind it.
-/

namespace Mindone.Gauge.ShadowLog

open Mindone.Lib

/-! ### Histories -/

/-- The calls before the last rotation and behind it, with how they returned. -/
abbrev Sections := List (Bytes × Bool) × List (Bytes × Bool)

def Sections.next (sections : Sections) : Event → Sections
  | .rotated => (sections.2, [])
  | .returned line ok => (sections.1, sections.2 ++ [(line, ok)])

/-- The calls between the last two rotations, and those since the last one. -/
def sections (trace : List Event) : Sections := trace.foldl Sections.next ([], [])

@[simp] theorem sections_append_rotated (trace : List Event) :
    sections (trace ++ [Event.rotated]) = ((sections trace).2, []) := by
  simp [sections, Sections.next]

@[simp] theorem sections_append_returned (trace : List Event) (line : Bytes) (ok : Bool) :
    sections (trace ++ [Event.returned line ok]) =
      ((sections trace).1, (sections trace).2 ++ [(line, ok)]) := by
  simp [sections, Sections.next]

/-- All calls. -/
def calls (trace : List Event) : List (Bytes × Bool) :=
  trace.filterMap fun
    | .returned line ok => some (line, ok)
    | .rotated => none

/-- The two sections are the end of what was called. -/
theorem sections_suffix (trace : List Event) :
    (sections trace).1 ++ (sections trace).2 <:+ calls trace := by
  induction trace using List.reverseRecOn with
  | nil => exact List.nil_suffix
  | append_singleton trace event ih =>
      cases event with
      | rotated =>
          have hcalls : calls (trace ++ [Event.rotated]) = calls trace := by simp [calls]
          rw [sections_append_rotated, hcalls, List.append_nil]
          exact (List.suffix_append _ _).trans ih
      | returned line ok =>
          have hcalls :
              calls (trace ++ [Event.returned line ok]) = calls trace ++ [(line, ok)] := by
            simp [calls]
          rw [sections_append_returned, hcalls, ← List.append_assoc]
          obtain ⟨front, hfront⟩ := ih
          exact ⟨front, by simp [← hfront]⟩

/-! ### Shapes -/

/-- A file with the given lines. -/
def Shape (limit : Nat) (lines : List Bytes) (file : Option Bytes) : Prop :=
  (lines = [] ∧ file.getD [] = []) ∨
    (lines ≠ [] ∧ file = some (header ++ lines.flatten) ∧ (header ++ lines.flatten).length ≤ limit)

/-- A file holds lines of a section of the calls, in their order, among them those whose call
returned well. -/
def Holds (limit : Nat) (section_ : List (Bytes × Bool)) (file : Option Bytes) : Prop :=
  ∃ lines, Shape limit lines file ∧ lines.Sublist (section_.map Prod.fst) ∧
    ((section_.filter Prod.snd).map Prod.fst).Sublist lines

/-- The shape of the two files. -/
def WellShaped (limit : Nat) (disk : Disk) : Prop :=
  Holds limit (sections disk.trace).1 disk.rotated ∧ Holds limit (sections disk.trace).2 disk.shadow

variable {limit : Nat} {line : Bytes} {lines : List Bytes} {file : Option Bytes}

theorem utf8_lineOf (cells : List Text) :
    utf8 (lineOf cells) = utf8 (List.intercalate [','] cells) ++ [10] := by
  have hend : ['\n'].flatMap String.utf8EncodeChar = [10] := by decide
  rw [lineOf, utf8, List.flatMap_append, hend, utf8]

theorem length_header_pos : 0 < header.length := by
  unfold header
  rw [utf8_lineOf]
  simp

theorem Shape.length_le (h : Shape limit lines file) : (file.getD []).length ≤ limit := by
  obtain ⟨-, hempty⟩ | ⟨-, rfl, hle⟩ := h
  · simp [hempty]
  · exact hle

theorem Shape.open_ (h : Shape limit lines file) : Shape limit lines (some (file.getD [])) := by
  obtain ⟨hlines, hempty⟩ | ⟨hlines, rfl, hle⟩ := h
  · exact .inl ⟨hlines, hempty⟩
  · exact .inr ⟨hlines, rfl, hle⟩

/-- What is written for a line. -/
def chunk (size : Nat) (line : Bytes) : Bytes := if size = 0 then header ++ line else line

/-- **A line is appended as a whole.** -/
theorem Shape.append (h : Shape limit lines file) (hline : line.length + header.length ≤ limit)
    (hroom : (file.getD []).length + line.length ≤ limit) :
    Shape limit (lines ++ [line]) (some (file.getD [] ++ chunk (file.getD []).length line)) := by
  refine .inr ⟨by simp, ?_, ?_⟩
  all_goals
    obtain ⟨hlines, hempty⟩ | ⟨hlines, rfl, hle⟩ := h
  · simp [hempty, hlines, chunk]
  · have hne : (header ++ lines.flatten).length ≠ 0 := by
      have := length_header_pos
      simp only [List.length_append]
      omega
    rw [Option.getD_some, chunk, if_neg hne, List.flatten_append, List.append_assoc]
    simp
  · simp [hlines]
    omega
  · simp at hroom ⊢
    omega

theorem Holds.create {section_ : List (Bytes × Bool)} (h : Holds limit section_ file) :
    Holds limit section_ (some (file.getD [])) := by
  obtain ⟨lines, hshape, hsub, hok⟩ := h
  exact ⟨lines, hshape.open_, hsub, hok⟩

theorem holds_nil (hfile : file.getD [] = []) : Holds limit [] file :=
  ⟨[], .inl ⟨rfl, hfile⟩, List.Sublist.refl _, List.Sublist.refl _⟩

/-- A call that left nothing in the file. -/
theorem Holds.failed {section_ : List (Bytes × Bool)} (h : Holds limit section_ file) (line : Bytes) :
    Holds limit (section_ ++ [(line, false)]) file := by
  obtain ⟨lines, hshape, hsub, hok⟩ := h
  refine ⟨lines, hshape, ?_, ?_⟩
  · rw [List.map_append]
    exact hsub.trans (List.sublist_append_left _ _)
  · simpa using hok

/-- A call that left its line in the file. -/
theorem Holds.appended {section_ : List (Bytes × Bool)} (h : Holds limit section_ file)
    (hline : line.length + header.length ≤ limit) (hroom : (file.getD []).length + line.length ≤ limit)
    (ok : Bool) : Holds limit (section_ ++ [(line, ok)])
      (some (file.getD [] ++ chunk (file.getD []).length line)) := by
  obtain ⟨lines, hshape, hsub, hok⟩ := h
  refine ⟨lines ++ [line], hshape.append hline hroom, ?_, ?_⟩
  · rw [List.map_append]
    exact hsub.append (List.Sublist.refl _)
  · rw [List.filter_append, List.map_append]
    refine hok.append ?_
    cases ok <;> simp

/-! ### A call -/

/-- A short write that wrote something is taken back. -/
def TakenBack (limit : Nat) (disk : Disk) (line : Bytes) (outcomes : Outcomes) : Prop :=
  ∀ count, outcomes.written = some count → 0 < count →
    count < (chunk (if disk.size + line.length > limit then 0 else disk.size) line).length →
    outcomes.truncates = true

/-- How a call leaves the disk, before its return is on the trace. -/
def Leaves (limit : Nat) (line : Bytes) (ok : Bool) (disk : Disk) : Prop :=
  WellShaped limit { disk with trace := disk.trace ++ [.returned line ok] }

theorem WellShaped.leaves {disk : Disk} (h : WellShaped limit disk) (line : Bytes) :
    Leaves limit line false disk := by
  refine ⟨?_, ?_⟩
  · simpa using h.1
  · simpa using h.2.failed line

theorem ends_check {ok : Bool} {disk : Disk} {Q : Unit → Disk → Prop} {E : Error → Disk → Prop}
    (hok : ok = true → Q () disk) (herror : ok = false → E .os disk) :
    Ends (check ok) disk Q E := by
  cases ok with
  | true => exact (ends_pure _).mpr (hok rfl)
  | false => exact (ends_throw _).mpr (herror rfl)

theorem ends_openFile {ok : Bool} {disk : Disk} {Q : Unit → Disk → Prop} {E : Error → Disk → Prop}
    (hok : Q () { disk with shadow := some (disk.shadow.getD []) }) (herror : E .os disk) :
    Ends (openFile ok) disk Q E := by
  rw [openFile, ends_bind]
  exact ends_check (fun _ => ends_modify.mpr hok) fun _ => herror

variable {outcomes : Outcomes} {disk : Disk}

/-- **What is written is the whole line, or nothing of it.** -/
theorem ends_writeLine {content : Bytes} {size : Nat} (hfile : disk.shadow = some content)
    (hsize : content.length = size) (h : WellShaped limit disk) (hline : line.length + header.length ≤ limit)
    (hroom : size + line.length ≤ limit)
    (hback : ∀ count, outcomes.written = some count → 0 < count →
      count < (chunk size line).length → outcomes.truncates = true) :
    Ends (writeLine line outcomes size) disk (fun _ => Leaves limit line true)
      fun _ => Leaves limit line false := by
  subst hsize
  have hkept : disk = { disk with shadow := some content } := by rw [← hfile]
  have hunchanged : Leaves limit line false { disk with shadow := some content } := hkept ▸ h.leaves line
  have hwhole : ∀ ok, Leaves limit line ok
      { disk with shadow := some (content ++ chunk content.length line) } := by
    intro ok
    refine ⟨by simpa using h.1, ?_⟩
    have hcurrent := h.2
    rw [hfile] at hcurrent
    simpa using hcurrent.appended hline hroom ok
  have hchunk : (if content.length = 0 then header ++ line else line) = chunk content.length line := rfl
  simp only [writeLine, hchunk, write, ends_bind]
  cases hwritten : outcomes.written with
  | none => exact (ends_throw _).mpr (hkept ▸ hunchanged)
  | some count =>
      simp only [ends_bind, ends_modify, ends_pure, hfile, Option.map_some]
      by_cases hshort : count < (chunk content.length line).length
      · -- the piece is taken back, unless there is none
        rw [if_pos (by omega)]
        simp only [ends_bind]
        refine ends_check (fun _ => ?_) fun hfailed => ?_
        · simp only [ends_modify, Option.map_some, List.take_left]
          exact ends_check (fun _ => (ends_throw _).mpr hunchanged) fun _ => hunchanged
        · cases count with
          | zero => simpa using hunchanged
          | succ count =>
              have htaken := hback (count + 1) hwritten (Nat.succ_pos count) hshort
              rw [htaken] at hfailed
              cases hfailed
      · rw [if_neg (by omega), List.take_of_length_le (by omega)]
        simp only [ends_bind]
        refine ends_check (fun _ => ?_) fun _ => hwhole false
        rw [ends_ite]
        split
        · exact ends_check (fun _ => hwhole true) fun _ => hwhole false
        · exact (ends_pure _).mpr (hwhole true)

/-- The file is moved aside with its lines. -/
theorem ends_rotate {Q : Unit → Disk → Prop} {E : Error → Disk → Prop} (h : WellShaped limit disk)
    (herror : ∀ disk, WellShaped limit disk → E .os disk)
    (hok : ∀ disk, WellShaped limit disk → disk.shadow = some [] → Q () disk) :
    Ends (rotate outcomes) disk Q E := by
  have hmoved : ∀ file : Option Bytes, file.getD [] = [] → WellShaped limit { disk with
      shadow := file, rotated := disk.shadow, trace := disk.trace ++ [Event.rotated] } :=
    fun file hfile => ⟨by simpa using h.2, by simpa using holds_nil hfile⟩
  simp only [rotate, ends_bind]
  refine ends_check (fun _ => ?_) fun _ => herror _ h
  refine ends_check (fun _ => ?_) fun _ => herror _ h
  rw [ends_modify]
  refine ends_check (fun _ => ?_) fun _ => herror _ (hmoved none rfl)
  exact ends_openFile (hok _ (hmoved (some []) rfl) rfl) (herror _ (hmoved none rfl))

/-- **A line is appended whole or taken back.** -/
theorem ends_appendLine (h : WellShaped limit disk) (hback : TakenBack limit disk line outcomes) :
    Ends (appendLine limit line outcomes) disk (fun _ => Leaves limit line true)
      fun _ => Leaves limit line false := by
  rw [appendLine]
  split
  next => exact (ends_throw _).mpr (h.leaves line)
  next hline =>
    have hline : line.length + header.length ≤ limit := by omega
    have hopen : WellShaped limit { disk with shadow := some (disk.shadow.getD []) } :=
      ⟨h.1, h.2.create⟩
    simp only [ends_bind]
    refine ends_openFile ?_ (h.leaves line)
    refine ends_check (fun _ => ?_) fun _ => hopen.leaves line
    simp only [ends_get]
    have hsize : Disk.size { disk with shadow := some (disk.shadow.getD []) } = disk.size := rfl
    rw [hsize]
    rw [TakenBack] at hback
    split at hback
    next hfull =>
      rw [if_pos hfull]
      simp only [ends_bind]
      refine ends_rotate hopen (fun _ hd => hd.leaves line) fun disk hd hempty => ?_
      have hroom : 0 + line.length ≤ limit := by
        rw [Nat.zero_add]
        exact Nat.le_trans (Nat.le_add_right _ _) hline
      exact ends_writeLine hempty rfl hd hline hroom hback
    next hfits =>
      rw [if_neg hfits]
      have hlength : (disk.shadow.getD []).length = disk.size := rfl
      exact ends_writeLine rfl hlength hopen hline (Nat.not_lt.mp hfits) hback

theorem WellShaped.step (h : WellShaped limit disk) (hback : TakenBack limit disk line outcomes) :
    WellShaped limit (step limit line outcomes disk) := by
  have hends := ends_appendLine h hback
  rw [ShadowLog.step]
  cases hresult : appendLine limit line outcomes disk with
  | ok _ disk' => exact (hends.of_ok hresult : Leaves limit line true disk')
  | error _ disk' => exact (hends.of_error hresult : Leaves limit line false disk')

/-! ### The start -/

/-- What is removed or renamed is gone, when this returns. -/
theorem ends_unlessMissing {file : Disk → Option Bytes} {ok : Bool} {change : Disk → Disk}
    {P : Disk → Prop} (hchange : P (change disk)) (hmissing : file disk = none → P disk) :
    Ends (unlessMissing file ok change) disk (fun _ => P) fun _ _ => True := by
  simp only [unlessMissing, ends_bind, ends_get]
  split
  next =>
    simp only [ends_bind]
    exact ends_check (fun _ => ends_set.mpr hchange) fun _ => trivial
  next hnone => exact (ends_pure _).mpr (hmissing (by simpa using hnone))

theorem ends_archive (outcomes : StartOutcomes) (disk : Disk) : Ends (archive outcomes) disk
    (fun _ s => s.shadow = none ∧ s.rotated = none ∧ s.trace = disk.trace) fun _ _ => True := by
  simp only [archive, ends_bind]
  refine (ends_unlessMissing (P := fun s => s.trace = disk.trace) rfl fun _ => rfl).mono ?_
    fun _ _ _ => trivial
  intro _ disk₁ h₁
  refine (ends_unlessMissing (P := fun s => s.trace = disk.trace) h₁ fun _ => h₁).mono ?_
    fun _ _ _ => trivial
  intro _ disk₂ h₂
  refine (ends_unlessMissing (P := fun s => s.shadow = none ∧ s.trace = disk.trace) ⟨rfl, h₂⟩
    fun hnone => ⟨hnone, h₂⟩).mono ?_ fun _ _ _ => trivial
  rintro _ disk₃ ⟨hshadow, h₃⟩
  refine (ends_unlessMissing (P := fun s => s.shadow = none ∧ s.rotated = none ∧ s.trace = disk.trace)
    ⟨hshadow, rfl, h₃⟩ fun hnone => ⟨hshadow, hnone, h₃⟩).mono ?_ fun _ _ _ => trivial
  intro _ disk₄ h₄
  exact ends_check (fun _ => h₄) fun _ => trivial

theorem ends_found (outcomes : StartOutcomes) (disk : Disk) : Ends (found outcomes) disk
    (fun found s => s = disk ∧ (found = false → disk.shadow = none ∧ disk.rotated = none))
    fun _ _ => True := by
  simp only [found, ends_bind, ends_get]
  refine ends_check (fun _ => ?_) fun _ => trivial
  rw [ends_ite]
  split
  next => exact (ends_pure _).mpr ⟨rfl, by simp⟩
  next hshadow =>
    simp only [ends_bind]
    refine ends_check (fun _ => (ends_pure _).mpr ⟨rfl, fun hrotated => ?_⟩) fun _ => trivial
    exact ⟨by simpa using hshadow, by simpa using hrotated⟩

/-- **A new log has no file yet.** -/
theorem ends_new (outcomes : StartOutcomes) (disk : Disk) : Ends (Log.new outcomes) disk
    (fun _ s => s.shadow = none ∧ s.rotated = none ∧ s.trace = disk.trace) fun _ _ => True := by
  simp only [Log.new, ends_bind]
  refine (ends_found outcomes disk).mono ?_ fun _ _ _ => trivial
  rintro found disk ⟨rfl, hnone⟩
  cases found with
  | true => exact ends_archive outcomes disk
  | false => exact (ends_pure _).mpr ⟨(hnone rfl).1, (hnone rfl).2, rfl⟩

/-! ### Rows -/

/-- Characters that neither end a line nor a cell. -/
def Plain (text : Text) : Prop := ∀ c ∈ text, c.toNat < 128 ∧ c ≠ ',' ∧ c ≠ '\n'

instance (text : Text) : Decidable (Plain text) :=
  List.decidableBAll (fun c : Char => c.toNat < 128 ∧ c ≠ ',' ∧ c ≠ '\n') text

theorem Plain.append {a b : Text} (ha : Plain a) (hb : Plain b) : Plain (a ++ b) := by
  intro c hc
  rcases List.mem_append.mp hc with hc | hc
  · exact ha c hc
  · exact hb c hc

theorem plain_cell (value : Text) : Plain (cell value) := by
  intro c hc
  obtain ⟨d, -, rfl⟩ := List.mem_map.mp hc
  split
  next hcell =>
    refine ⟨?_, ?_, ?_⟩
    · -- the classes down to the bounds of their codes
      delta isCellChar Char.isAlphanum Char.isAlpha Char.isUpper Char.isLower Char.isDigit at hcell
      simp at hcell
      have hle : ∀ n : UInt32, d.val ≤ n → d.toNat ≤ n.toNat := fun n h => UInt32.le_iff_toNat_le.mp h
      obtain ((⟨-, h⟩ | ⟨-, h⟩) | ⟨-, h⟩) | rfl | rfl | rfl | rfl | rfl | rfl | rfl | rfl | rfl := hcell
      · exact Nat.lt_of_le_of_lt (hle 90 h) (by decide)
      · exact Nat.lt_of_le_of_lt (hle 122 h) (by decide)
      · exact Nat.lt_of_le_of_lt (hle 57 h) (by decide)
      all_goals decide
    · rintro rfl
      exact absurd hcell (by decide)
    · rintro rfl
      exact absurd hcell (by decide)
  next => decide

theorem plain_digits (n : Nat) : Plain (toString n).toList := by
  intro c hc
  have hdigit : c.isDigit = true := by
    have htext : (toString n).toList = Nat.toDigits 10 n := Nat.toList_repr
    rw [htext] at hc
    exact Nat.isDigit_of_mem_toDigits (by decide) (by decide) hc
  refine ⟨?_, ?_, ?_⟩
  · obtain ⟨-, hle⟩ := Char.isDigit_iff_toNat.mp hdigit
    exact Nat.lt_of_le_of_lt hle (by decide)
  · rintro rfl
    exact absurd hdigit (by decide)
  · rintro rfl
    exact absurd hdigit (by decide)

theorem plain_int (n : Int) : Plain (toString n).toList := by
  rw [Int.toString_eq_repr, Int.repr_eq_if]
  split
  · exact plain_digits n.toNat
  · rw [String.toList_append]
    exact Plain.append (by decide) (plain_digits (-n).toNat)

theorem plain_display {α : Type} (text : α → Text) (value : Value α) : Plain (value.display text) := by
  cases value with
  | ok value => exact plain_cell _
  | err error => exact Plain.append (by decide) (plain_cell _)

variable {fixed6 : UInt64 → Text}

/-- No cell ends a cell or a line. -/
theorem plain_cells (hfixed : ∀ bits, Plain (fixed6 bits)) (row : Row) :
    ∀ cell ∈ row.cells fixed6, Plain cell := by
  have hunknown : Plain "unknown".toList := by decide
  simp only [Row.cells, List.forall_mem_cons, List.not_mem_nil, false_imp_iff, implies_true, and_true]
  refine ⟨plain_digits _, plain_digits _, plain_cell _, ?_, ?_, hfixed _, plain_display _ _,
    plain_display _ _, plain_display _ _, plain_display _ _, plain_display _ _, plain_display _ _, ?_, ?_⟩
  · cases row.voltage with
    | none => exact hunknown
    | some v => exact plain_int _
  · cases row.current with
    | none => exact hunknown
    | some v => exact plain_int _
  · cases row.driftUah with
    | none => exact hunknown
    | some bits => exact hfixed bits
  · split <;> decide

theorem mem_intercalate {cells : List Text} {c : Char} (h : c ∈ List.intercalate [','] cells) :
    c = ',' ∨ ∃ cell ∈ cells, c ∈ cell := by
  induction cells with
  | nil => cases h
  | cons cell cells ih =>
      cases cells with
      | nil => exact .inr ⟨cell, List.mem_singleton_self cell, by simpa using h⟩
      | cons next cells =>
          rw [List.intercalate_cons_cons] at h
          rcases List.mem_append.mp h with h | h
          · rcases List.mem_append.mp h with h | h
            · exact .inr ⟨cell, List.mem_cons_self .., h⟩
            · exact .inl (List.mem_singleton.mp h)
          · obtain hcomma | ⟨cell', hcell', hc⟩ := ih h
            · exact .inl hcomma
            · exact .inr ⟨cell', List.mem_cons_of_mem _ hcell', hc⟩

/-- A text of one line. -/
def IsLine (bytes : Bytes) : Prop := ∃ body, bytes = body ++ [10] ∧ 10 ∉ body

/-- The cells of a row make one line. -/
theorem isLine_lineOf {cells : List Text} (h : ∀ cell ∈ cells, Plain cell) :
    IsLine (utf8 (lineOf cells)) := by
  refine ⟨_, utf8_lineOf cells, ?_⟩
  intro hmem
  obtain ⟨c, hc, hbyte⟩ := List.mem_flatMap.mp hmem
  -- the byte of a newline is that of no other character below 128
  obtain ⟨hascii, hne⟩ : c.toNat < 128 ∧ c ≠ '\n' := by
    obtain rfl | ⟨cell, hcell, hc⟩ := mem_intercalate hc
    · decide
    · exact ⟨(h cell hcell c hc).1, (h cell hcell c hc).2.2⟩
  have hsize : c.utf8Size = 1 := Char.utf8Size_eq_one_iff.mpr (UInt32.le_iff_toNat_le.mpr (by
    exact Nat.le_of_lt_succ hascii))
  rw [String.utf8EncodeChar_eq_singleton hsize, List.mem_singleton] at hbyte
  apply hne
  apply Char.ext
  apply UInt32.toNat_inj.mp
  have hten := congrArg UInt8.toNat hbyte
  rw [UInt32.toNat_toUInt8] at hten
  have hval : c.val.toNat < 128 := hascii
  have hsmall : c.val.toNat % 2 ^ 8 = c.val.toNat := Nat.mod_eq_of_lt (by omega)
  exact (hten.trans hsmall).symm

/-! ### Runs -/

/-- **The shape is kept by runs** whose short writes are taken back. -/
theorem Reach.wellShaped {disk : Disk} (h : Reach limit (TakenBack limit) disk) :
    WellShaped limit disk := by
  induction h with
  | @new outcomes before disk htrace hnew =>
      obtain ⟨hshadow, hrotated, hsame⟩ := (ends_new outcomes before).of_ok hnew
      have hsections : sections disk.trace = ([], []) := by rw [hsame, htrace]; rfl
      rw [WellShaped, hsections]
      exact ⟨holds_nil (by simp [hrotated]), holds_nil (by simp [hshadow])⟩
  | append _ line outcomes hok ih => exact ih.step hok

theorem isLine_header : IsLine header := by
  unfold header
  exact isLine_lineOf (by decide)

/-- The lines of the two files, in terms of the calls since the last rotation and before it. -/
structure LogLaws (limit : Nat) (disk : Disk) : Prop where
  /-- Each file has lines of its section of the calls, in their order, among them those whose call
  returned well. -/
  shape : WellShaped limit disk
  /-- The sections follow each other at the end of the calls. -/
  order : (sections disk.trace).1 ++ (sections disk.trace).2 <:+ calls disk.trace
  shadow_le : (disk.shadow.getD []).length ≤ limit
  rotated_le : (disk.rotated.getD []).length ≤ limit

/-- **The log of the shadow gauge.** -/
theorem shadow_log (hfixed : ∀ bits, Plain (fixed6 bits)) :
    (∀ limit disk, Reach limit (TakenBack limit) disk → LogLaws limit disk) ∧
      IsLine header ∧ ∀ row : Row, IsLine (utf8 (row.line fixed6)) := by
  refine ⟨?_, isLine_header, fun row => isLine_lineOf (plain_cells hfixed row)⟩
  intro limit disk h
  obtain ⟨⟨_, hrotated, -⟩, _, hshadow, -⟩ := h.wellShaped
  exact ⟨h.wellShaped, sections_suffix disk.trace, hshadow.length_le, hrotated.length_le⟩

def Outcomes.well : Outcomes where
  opens := true
  metadata := true
  syncsFull := true
  renames := true
  syncsRename := true
  reopens := true
  written := some 1000
  truncates := true
  syncsTruncated := true
  syncsData := true
  syncsNew := true

def StartOutcomes.well : StartOutcomes := ⟨true, true, true, true, true, true, true⟩

def Disk.blank : Disk := ⟨none, none, none, none, []⟩

theorem reach_blank (limit : Nat) (ok : Disk → Bytes → Outcomes → Prop) : Reach limit ok .blank :=
  @Reach.new limit ok .well .blank .blank rfl rfl

/-- The row of a first poll that had no answer. -/
def firstRow : Row where
  acquiredNs := 5
  sequence := 1
  status := "transport:closed".toList
  voltage := none
  current := none
  chargeInUah := 0
  gm := ⟨.ok 70, .ok 4000000, .ok (-100000), .ok 1000, .err "errno:2".toList, .ok 250⟩
  driftUah := none
  gap := false

/-- As a zero is printed. -/
def zeroText (_ : UInt64) : Text := "0.000000".toList

def firstLine : Bytes := utf8 (firstRow.line zeroText)

/-- A write that takes five bytes. -/
def Outcomes.short : Outcomes := { Outcomes.well with written := some 5 }

/-- A line; another one, for which the file is rotated and of which a piece is written; and a third. -/
def rotatedDisk : Disk :=
  step 300 firstLine .well (step 300 firstLine .short (step 300 firstLine .well .blank))

/-- The piece is taken back, and each file has one line. -/
theorem shadow_log_firstRow :
    LogLaws 300 rotatedDisk ∧ IsLine firstLine ∧
      rotatedDisk.trace =
        [.returned firstLine true, .rotated, .returned firstLine false, .returned firstLine true] ∧
      rotatedDisk.rotated = some (header ++ firstLine) ∧
      rotatedDisk.shadow = some (header ++ firstLine) := by
  have hplain : ∀ bits, Plain (zeroText bits) := fun _ => (by decide : Plain "0.000000".toList)
  obtain ⟨hlaws, -, hline⟩ := shadow_log hplain
  have hreach : Reach 300 (TakenBack 300) rotatedDisk :=
    .append (.append (.append (reach_blank 300 _) firstLine .well fun _ _ _ _ => rfl) firstLine .short
      fun _ _ _ _ => rfl) firstLine .well fun _ _ _ _ => rfl
  exact ⟨hlaws 300 _ hreach, hline firstRow, by decide +kernel, by decide +kernel,
    by decide +kernel⟩

/-- A write that took five bytes, which cannot be taken back. -/
def Outcomes.torn : Outcomes := { Outcomes.well with written := some 5, truncates := false }

/-- The disk behind a torn line and another. -/
def tornDisk : Disk :=
  step 1000 [116, 119, 111, 10] .well (step 1000 [111, 110, 101, 10] .torn .blank)

/-- **A torn line stays**, and the next line is written behind it. -/
theorem shadow_log_torn : Reach 1000 (fun _ _ _ => True) tornDisk ∧
    tornDisk.shadow = some ([97, 99, 113, 117, 105] ++ [116, 119, 111, 10]) ∧
      tornDisk.trace = [.returned [111, 110, 101, 10] false, .returned [116, 119, 111, 10] true] ∧
        ¬ WellShaped 1000 tornDisk := by
  have hfile : tornDisk.shadow = some ([97, 99, 113, 117, 105] ++ [116, 119, 111, 10]) := by
    decide +kernel
  refine ⟨.append (.append (reach_blank 1000 _) _ _ trivial) _ _ trivial, hfile,
    by decide +kernel, ?_⟩
  rintro ⟨-, lines, hshape, -⟩
  rw [hfile] at hshape
  obtain ⟨-, hempty⟩ | ⟨-, hlines, -⟩ := hshape
  · cases hempty
  · have hlength := congrArg List.length (Option.some.inj hlines)
    have hheader : 9 < header.length := by decide +kernel
    rw [List.length_append] at hlength
    simp at hlength
    omega

end Mindone.Gauge.ShadowLog
