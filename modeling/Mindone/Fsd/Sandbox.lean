import Mathlib.Data.List.Infix
import Mindone.Fsd.Wire

/-!
# Mindone.Fsd.Sandbox

**Where the paths of the modem lead.** `fs_resolve` and `path_resolve` put a root directory in
front of what the modem has sent, without a separator of their own. A resolved path never goes
up and always fits its buffer; it stays below its root exactly when the modem has sent a
separator behind the drive or behind the name of the root, or nothing at all. Otherwise the
name of the root directory is only the start of another name.

A path is compared by its components, with empty ones and `.` left out.
-/

namespace Mindone.Fsd

/-! ### Components -/

/-- The components of a path after repeated slashes and `.` are collapsed. -/
def components (p : Path) : List Path := (p.splitOn slash).filter fun c => c != [] && c != [dot]

/-- The path is the root directory itself, or lies below it. -/
def Below (root p : Path) : Prop := components root <+: components p

/-- No component goes up. -/
def NoParent (p : Path) : Prop := [dot, dot] ∉ components p

theorem head_splitOn_prefix {p part : Path} {parts : List Path}
    (h : p.splitOn slash = part :: parts) : part <+: p := by
  induction p generalizing part parts with
  | nil =>
      cases h
      exact List.prefix_refl _
  | cons c rest ih =>
      rw [List.splitOn_cons_eq_if_modifyHead] at h
      split at h
      · cases h
        exact List.nil_prefix
      · cases hrest : rest.splitOn slash with
        | nil => exact absurd hrest (List.splitOn_ne_nil _ _)
        | cons first others =>
            rw [hrest] at h
            cases h
            exact List.cons_prefix_cons.mpr ⟨rfl, ih hrest⟩

/-- A component is a part of its path. -/
theorem infix_of_mem_splitOn {p part : Path} (h : part ∈ p.splitOn slash) : part <:+: p := by
  induction p generalizing part with
  | nil =>
      rw [List.splitOn_nil, List.mem_singleton] at h
      subst h
      exact List.infix_refl _
  | cons c rest ih =>
      rw [List.splitOn_cons_eq_if_modifyHead] at h
      split at h
      · rcases List.mem_cons.mp h with rfl | hrest
        · exact List.nil_infix
        · exact (ih hrest).trans (List.suffix_cons _ _).isInfix
      · cases hrest : rest.splitOn slash with
        | nil => exact absurd hrest (List.splitOn_ne_nil _ _)
        | cons first others =>
            rw [hrest] at h
            rcases List.mem_cons.mp h with rfl | hother
            · exact (List.cons_prefix_cons.mpr ⟨rfl, head_splitOn_prefix hrest⟩).isInfix
            · have hmem : part ∈ rest.splitOn slash := by
                rw [hrest]
                exact List.mem_cons_of_mem _ hother
              exact (ih hmem).trans (List.suffix_cons _ _).isInfix

theorem noParent_of_no_dots {p : Path} (h : ¬ [dot, dot] <:+: p) : NoParent p := fun hmem =>
  h (infix_of_mem_splitOn (List.mem_of_mem_filter hmem))

/-- Two dots behind a text without any are behind it altogether. -/
theorem dots_append {root rest : Path} (hroot : dot ∉ root) (h : [dot, dot] <:+: root ++ rest) :
    [dot, dot] <:+: rest := by
  induction root with
  | nil => exact h
  | cons c root ih =>
      rw [List.cons_append] at h
      rcases List.infix_cons_iff.mp h with hstart | hrest
      · rw [(List.cons_prefix_cons.mp hstart).1] at hroot
        exact absurd List.mem_cons_self hroot
      · exact ih (fun hmem => hroot (List.mem_cons_of_mem _ hmem)) hrest

/-! ### Roots -/

/-- **A root directory**: an absolute path without dots, whose last name has more than one
character. -/
structure Rooted (root : Path) : Prop where
  last : ∃ stem base, root = stem ++ slash :: base ∧ slash ∉ base ∧ 2 ≤ base.length
  noDots : dot ∉ root

theorem components_append (stem rest : Path) :
    components (stem ++ slash :: rest) = components stem ++ components rest := by
  unfold components
  rw [List.splitOn_append_cons_self, List.filter_append]

theorem components_name {base : Path} (hslash : slash ∉ base) (hlong : 2 ≤ base.length) :
    components base = [base] := by
  unfold components
  rw [List.splitOn_eq_singleton hslash]
  have hne : base ≠ [] ∧ base ≠ [dot] := by
    constructor
    · rintro rfl
      simp at hlong
    · rintro rfl
      simp at hlong
  simp [hne.1, hne.2]

/-- A separator keeps a path below its root. -/
theorem below_separated (root rest : Path) : Below root (root ++ slash :: rest) := by
  unfold Below
  rw [components_append]
  exact List.prefix_append _ _

/-- **Without a separator the path leaves its root**: the name of the root goes on. -/
theorem not_below_sibling {root : Path} (hroot : Rooted root) {c : UInt8} (hc : c ≠ slash)
    (rest : Path) : ¬ Below root (root ++ c :: rest) := by
  obtain ⟨⟨stem, base, rfl, hslash, hlong⟩, -⟩ := hroot
  intro hbelow
  unfold Below at hbelow
  rw [List.append_assoc, List.cons_append, components_append, components_append,
    components_name hslash hlong] at hbelow
  have hprefix := (List.prefix_append_right_inj _).mp hbelow
  -- the first component of what follows starts with the whole name and one character more
  have hsplit : (base ++ c :: rest).splitOn slash =
      ((c :: rest).splitOn slash).modifyHead (base ++ ·) := by
    clear hprefix hbelow hlong
    induction base with
    | nil =>
        cases hrest : (c :: rest).splitOn slash with
        | nil => exact absurd hrest (List.splitOn_ne_nil _ _)
        | cons first others => simp [hrest]
    | cons b base ih =>
        have hb : (b == slash) = false := by
          rw [beq_eq_false_iff_ne]
          rintro rfl
          exact hslash List.mem_cons_self
        rw [List.cons_append, List.splitOn_cons_eq_if_modifyHead, hb,
          ih fun hmem => hslash (List.mem_cons_of_mem _ hmem)]
        cases hrest : (c :: rest).splitOn slash with
        | nil => exact absurd hrest (List.splitOn_ne_nil _ _)
        | cons first others => rfl
  rw [List.splitOn_cons_eq_if_modifyHead, beq_eq_false_iff_ne.mpr hc] at hsplit
  cases hrest : rest.splitOn slash with
  | nil => exact absurd hrest (List.splitOn_ne_nil _ _)
  | cons first others =>
      rw [hrest] at hsplit
      unfold components at hprefix
      rw [hsplit] at hprefix
      have hkeep : ((base ++ c :: first) != [] && (base ++ c :: first) != [dot]) = true := by
        have hlength : 3 ≤ (base ++ c :: first).length := by
          rw [List.length_append, List.length_cons]
          omega
        generalize base ++ c :: first = name at hlength
        rcases name with _ | ⟨a, _ | ⟨b, tail⟩⟩
        · simp at hlength
        · simp at hlength
        · simp
      simp only [Bool.false_eq_true, if_false, List.modifyHead_cons, List.filter_cons, hkeep,
        if_true] at hprefix
      have heq := (List.cons_prefix_cons.mp hprefix).1
      have := congrArg List.length heq
      rw [List.length_append, List.length_cons] at this
      omega

theorem fsDriveDir_rooted (p : Path) : Rooted (fsDriveDir p) := by
  unfold fsDriveDir
  split
  · exact ⟨⟨path "/mnt/vendor/nvdata", path "md", by decide, by decide, by decide⟩, by decide⟩
  · exact ⟨⟨path "/mnt/vendor/nvdata", path "md", by decide, by decide, by decide⟩, by decide⟩
  · exact ⟨⟨path "/mnt/vendor/protect_f", path "md", by decide, by decide, by decide⟩, by decide⟩
  · exact ⟨⟨path "/mnt/vendor/protect_f", path "md", by decide, by decide, by decide⟩, by decide⟩
  · exact ⟨⟨path "/mnt/vendor/protect_s", path "md", by decide, by decide, by decide⟩, by decide⟩
  · exact ⟨⟨path "/mnt/vendor/protect_s", path "md", by decide, by decide, by decide⟩, by decide⟩
  · exact ⟨⟨path "/mnt/vendor", path "nvdata", by decide, by decide, by decide⟩, by decide⟩

theorem kRoots_rooted {root : Root} (h : root ∈ kRoots) (hlive : root.live = true) :
    Rooted root.realDir := by
  simp only [kRoots, List.mem_cons, List.not_mem_nil, or_false] at h
  rcases h with rfl | rfl | rfl | rfl | rfl | rfl | rfl | rfl | rfl | rfl | rfl | rfl | rfl
  · exact ⟨⟨path "/mnt/vendor/nvdata", path "md_cmn", by decide, by decide, by decide⟩, by decide⟩
  · cases hlive
  · cases hlive
  · cases hlive
  · cases hlive
  · exact ⟨⟨path "/mnt/vendor/nvdata", path "md", by decide, by decide, by decide⟩, by decide⟩
  · cases hlive
  · cases hlive
  · exact ⟨⟨path "/mnt/vendor/protect_f", path "md", by decide, by decide, by decide⟩, by decide⟩
  · cases hlive
  · cases hlive
  · exact ⟨⟨path "/mnt/vendor/protect_s", path "md", by decide, by decide, by decide⟩, by decide⟩
  · exact ⟨⟨path "/mnt/vendor", path "nvcfg", by decide, by decide, by decide⟩, by decide⟩

/-- A path behind a root: below it, without going up, and with room for its terminator. -/
structure Confined (root p : Path) (cap : Nat) : Prop where
  below : Below root p
  noParent : NoParent p
  fits : p.length < cap

/-- **The root and what is put behind it.** -/
theorem confined_iff {root rest : Path} {cap : Nat} (hroot : Rooted root)
    (hdots : ¬ [dot, dot] <:+: rest) (hfits : (root ++ rest).length < cap) :
    Confined root (root ++ rest) cap ↔ rest = [] ∨ rest.head? = some slash := by
  have hnoParent : NoParent (root ++ rest) :=
    noParent_of_no_dots fun h => hdots (dots_append hroot.noDots h)
  constructor
  · rintro ⟨hbelow, -, -⟩
    cases rest with
    | nil => exact .inl rfl
    | cons c rest =>
        by_cases hc : c = slash
        · exact .inr (by rw [hc]; rfl)
        · exact absurd hbelow (not_below_sibling hroot hc rest)
  · rintro (rfl | hslash)
    · rw [List.append_nil] at hnoParent hfits ⊢
      exact ⟨List.prefix_refl _, hnoParent, hfits⟩
    · cases rest with
      | nil => cases hslash
      | cons c rest =>
          cases hslash
          exact ⟨below_separated root rest, hnoParent, hfits⟩

/-! ### The two resolvers -/

/-- The loop copies the path with slashes for backslashes, and has met no two dots. -/
theorem resolveLoop_copies {cap : Nat} {out rest real : Path} (hout : out.length < cap)
    (h : resolveLoop cap out rest = some real) :
    real = out ++ rest.map (fun c => if c = backslash then slash else c) ∧ real.length < cap ∧
      ¬ [dot, dot] <:+: rest.map fun c => if c = backslash then slash else c := by
  induction rest generalizing out with
  | nil =>
      cases h
      exact ⟨(List.append_nil _).symm, hout, by simp⟩
  | cons c rest ih =>
      unfold resolveLoop at h
      split at h
      · cases h
      rename_i hdots
      split at h
      · cases h
      obtain ⟨hreal, hfits, hrest⟩ := ih (by
        rw [List.length_append, List.length_singleton]
        omega) h
      refine ⟨by rw [hreal, List.append_assoc]; rfl, hfits, fun hsub => ?_⟩
      rcases List.infix_cons_iff.mp hsub with hstart | hlater
      · -- two dots in front are dots of the path itself
        have hcopy : ∀ {b : UInt8}, dot = (if b = backslash then slash else b) → b = dot := by
          intro b hb
          split at hb
          · cases hb
          · exact hb.symm
        obtain ⟨hfirst, hsecond⟩ := List.cons_prefix_cons.mp hstart
        refine hdots ⟨hcopy hfirst, ?_⟩
        cases rest with
        | nil => simp at hsecond
        | cons d rest =>
            rw [List.map_cons] at hsecond
            exact congrArg some (hcopy (List.cons_prefix_cons.mp hsecond).1)
      · exact hrest hlater

/-- **`fs_resolve` confines a path exactly when a separator follows the drive**, or nothing. -/
theorem fsResolve_confined_iff {name real : Path} {cap : Nat}
    (h : fsResolve name cap = some real) :
    Confined (fsDriveDir name) real cap ↔
      name.drop 2 = [] ∨ (name.drop 2).head? = some slash ∨
        (name.drop 2).head? = some backslash := by
  unfold fsResolve at h
  split at h
  · rename_i drive second rest
    split at h
    · cases h
    split at h
    · cases h
    rename_i hroom
    obtain ⟨hreal, hfits, hdots⟩ := resolveLoop_copies (by omega) h
    rw [hreal] at hfits ⊢
    rw [confined_iff (fsDriveDir_rooted _) hdots hfits]
    cases rest with
    | nil => simp
    | cons c rest =>
        simp only [List.map_cons, List.head?_cons, List.drop_succ_cons, List.drop_zero,
          Option.some.injEq, reduceCtorEq, false_or]
        split
        · rename_i hc
          simp [hc]
        · rename_i hc
          simp [hc]
  · cases h

/-- **`path_resolve` confines a path exactly when a separator follows the name of the root**, or
nothing. -/
theorem pathResolve_confined_iff {name out : Path} {cap : Nat} {root : Root}
    (h : pathResolve name cap = .ok out)
    (hroot : kRoots.find? (fun root => root.start.isPrefixOf name) = some root) :
    Confined root.realDir out cap ↔
      name.drop root.start.length = [] ∨ (name.drop root.start.length).head? = some slash := by
  unfold pathResolve at h
  split at h
  · cases h
  split at h
  · cases h
  rename_i hdots
  rw [hroot] at h
  dsimp only at h
  split at h
  · cases h
  rename_i hlive
  split at h
  · cases h
  rename_i hfits
  cases h
  refine confined_iff (kRoots_rooted (List.mem_of_find?_eq_some hroot) (by simpa using hlive)) ?_
    (Nat.lt_of_not_le hfits)
  intro hsub
  obtain ⟨tail, hstart, hsuffix⟩ :=
    List.infix_iff_prefix_suffix.mp (hsub.trans (List.drop_suffix _ _).isInfix)
  refine hdots (List.any_eq_true.mpr ⟨tail, (List.mem_tails _ _).mpr hsuffix, ?_⟩)
  exact List.isPrefixOf_iff_prefix.mpr hstart

/-- **The sandbox.** What the modem sends as a path is resolved to a path below its root, which
does not go up and fits its buffer, exactly when a separator or nothing stands behind the drive,
or behind the name of the root. -/
theorem resolved_confined_iff (src : Bytes) (name real out : Path) (cap : Nat) (root : Root) :
    (fsWcsToStr src pathCap = some name → fsResolve name realCap = some real →
      (Confined (fsDriveDir name) real realCap ↔
        name.drop 2 = [] ∨ (name.drop 2).head? = some slash ∨
          (name.drop 2).head? = some backslash)) ∧
    (pathResolve name cap = .ok out →
      kRoots.find? (fun root => root.start.isPrefixOf name) = some root →
      (Confined root.realDir out cap ↔
        name.drop root.start.length = [] ∨ (name.drop root.start.length).head? = some slash)) :=
  ⟨fun _ h => fsResolve_confined_iff h, fun h hroot => pathResolve_confined_iff h hroot⟩

/-- UTF-16 of an ASCII text. -/
def wide (p : Path) : Bytes := p.flatMap fun c => [c, 0]

theorem resolved_confined_iff_system_drive :
    fsWcsToStr (wide (path "Z:\\NVRAM")) pathCap = some (path "Z:\\NVRAM") ∧
      fsResolve (path "Z:\\NVRAM") realCap = some (path "/mnt/vendor/nvdata/md/NVRAM") ∧
      Confined (path "/mnt/vendor/nvdata/md") (path "/mnt/vendor/nvdata/md/NVRAM") realCap := by
  have hname : fsWcsToStr (wide (path "Z:\\NVRAM")) pathCap = some (path "Z:\\NVRAM") := by decide
  have hreal : fsResolve (path "Z:\\NVRAM") realCap =
      some (path "/mnt/vendor/nvdata/md/NVRAM") := by decide
  exact ⟨hname, hreal,
    ((resolved_confined_iff _ _ _ [] 0 ⟨[], [], false⟩).1 hname hreal).mpr (by decide)⟩

/-- A path without a separator behind the drive leads to a sibling of the root. -/
theorem resolved_not_confined :
    ¬ ∀ (src : Bytes) (name real : Path), fsWcsToStr src pathCap = some name →
      fsResolve name realCap = some real → Confined (fsDriveDir name) real realCap := by
  intro hclaim
  have hconfined := hclaim (wide (path "Z:_cmn\\x")) (path "Z:_cmn\\x")
    (path "/mnt/vendor/nvdata/md_cmn/x") (by decide) (by decide)
  refine not_below_sibling (fsDriveDir_rooted (path "Z:_cmn\\x")) (by decide : (0x5f : UInt8) ≠ slash)
    (path "cmn/x") ?_
  exact hconfined.below

end Mindone.Fsd
