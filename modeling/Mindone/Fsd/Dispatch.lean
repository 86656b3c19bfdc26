import Mindone.Fsd.Daemon

/-!
# Mindone.Fsd.Dispatch

**When a request is served by its own operation.** The legacy tests of `main` stand before the
parser and look at raw words of the payload, so a request can be taken for a compound write or
read of one fixed file. The service then does what the request asks for only by coincidence:
when both readings are refused at once, or when a compound write, read from the wrong place,
names the same descriptor, position and bytes.
-/

namespace Mindone.Fsd

open Mindone.Lib

variable {fnmatch : Path → Path → Bool}

/-! ### Codes and answers -/

theorem Op.ofId_eq {id : Nat} {op : Op} : Op.ofId id = some op ↔ op.id = id := by
  constructor
  · intro h
    simpa using List.find?_some h
  · rintro rfl
    cases op <;> decide

theorem unknownFile_eq : unknownFile = path "/mnt/vendor/nvcfg/unknown" := by decide

theorem resolveLoop_start {cap : Nat} {out rest real : Path}
    (h : resolveLoop cap out rest = some real) : out <+: real := by
  induction rest generalizing out with
  | nil =>
      cases h
      exact List.prefix_refl _
  | cons c rest ih =>
      unfold resolveLoop at h
      split at h
      · cases h
      split at h
      · cases h
      · exact (List.prefix_append _ _).trans (ih h)

theorem resolveLoop_length {cap : Nat} {out rest real : Path} (hout : out.length < cap)
    (h : resolveLoop cap out rest = some real) : real.length < cap := by
  induction rest generalizing out with
  | nil =>
      cases h
      exact hout
  | cons c rest ih =>
      unfold resolveLoop at h
      split at h
      · cases h
      split at h
      · cases h
      · refine ih ?_ h
        rw [List.length_append, List.length_singleton]
        omega

theorem fsResolve_length {name real : Path} {cap : Nat} (h : fsResolve name cap = some real) :
    real.length < cap := by
  unfold fsResolve at h
  split at h
  · split at h
    · cases h
    split at h
    · cases h
    · exact resolveLoop_length (by omega) h
  · cases h

/-- **No path of the modem is resolved to the file of the legacy paths.** -/
theorem fsResolve_ne_unknownFile {name : Path} {cap : Nat} : fsResolve name cap ≠ some unknownFile := by
  intro h
  unfold fsResolve at h
  split at h
  · split at h
    · cases h
    split at h
    · cases h
    · have hstart := resolveLoop_start h
      revert hstart
      rw [unknownFile_eq]
      unfold fsDriveDir
      split <;> decide
  · cases h

/-- Answers with another layout than that of a parameter error are other answers. -/
theorem buildResp_ne_paramError {hdr : Header} {opId : Nat} {segs : List Bytes}
    (h : layout ioBufSize 24 segs ≠ layout ioBufSize 24 [leInt fsParamError]) :
    buildResp hdr opId segs ≠ buildResultResp hdr opId fsParamError := by
  intro heq
  have hbody : layout ioBufSize 24 [leInt fsParamError] = some (le32 4 ++ leInt fsParamError) := by
    decide
  unfold buildResultResp buildResp at heq
  rw [hbody] at heq h
  cases hsegs : layout ioBufSize 24 segs with
  | none =>
      rw [hsegs] at heq
      cases heq
  | some body =>
      rw [hsegs] at heq h
      have hdrop := congrArg (List.drop 24) heq
      refine h (congrArg some ?_)
      simpa [le32] using hdrop

/-! ### How a program starts -/

/-- A compound write that is refused before any call. -/
def CmptWriteReq.refused (req : CmptWriteReq) (t : Tables) : Bool :=
  if req.fileHandle < 0 then !req.opidMap.testBit 0 else (handleGetFd t req.fileHandle).isNone

/-- A compound read that is refused before any call. -/
def CmptReadReq.refused (req : CmptReadReq) : Bool := !req.opidMap.testBit 0

/-- **The requests that their own operation refuses** with a parameter error before any call. -/
def refuses (t : Tables) (op : Op) (req : Request) : Bool :=
  match op with
  | .close => (req.segOf 0 4).any fun h => (entry t.fsHandles (signed (word h 0))).isNone
  | .findClose => (req.segOf 0 4).any fun h => (entry t.fsFinds (signed (word h 0))).isNone
  | .rename | .move => stage1 op req == .refused fsParamError
  | .getDrive => req.wordOr 0 != 4
  | .binRegion => true
  | .cmptRead =>
      match stage1 op req with
      | .found _ _ _ => (req.segOf 1 cmptReadSize).any fun seg => (CmptReadReq.ofBytes seg).refused
      | _ => false
  | .cmptWrite =>
      match stage1 op req with
      | .found _ _ _ =>
          (req.segOf 1 cmptWriteSize).any fun seg => (CmptWriteReq.ofBytes seg).refused t
      | _ => false
  | _ => false

theorem handleGetFd_nonneg {t : Tables} {handle : Int} {slot : Fin maxOpenHandles × Nat}
    (h : handleGetFd t handle = some slot) : ¬ handle < 0 := by
  unfold handleGetFd at h
  split at h
  · rename_i hn
    omega
  · cases h

/-- **How a compound write starts**: it is refused, it opens its file, or it goes on with an
open descriptor. -/
theorem handleCmptWrite_cases (wr : CmptWriteReq) {real : Path} (hlength : real.length < pathMax)
    (t : Tables) :
    (wr.refused t = true ∧ handleCmptWrite wr real t = .ret ((fsParamError, -1), t)) ∨
    (wr.refused t = false ∧
      ∃ flags next, handleCmptWrite wr real t = .call (.open real flags) next) ∨
    (wr.refused t = false ∧ ∃ i fd, handleGetFd t wr.fileHandle = some (i, fd) ∧
      handleCmptWrite wr real t = cmptWriteOn wr i fd t) := by
  unfold CmptWriteReq.refused handleCmptWrite
  by_cases hfresh : wr.fileHandle < 0
  · rw [if_pos hfresh, if_pos hfresh]
    cases hopen : wr.opidMap.testBit 0 with
    | false => exact .inl ⟨rfl, rfl⟩
    | true =>
        rw [if_pos rfl, if_neg (Nat.not_le_of_lt hlength)]
        exact .inr (.inl ⟨rfl, _, _, rfl⟩)
  · rw [if_neg hfresh, if_neg hfresh]
    simp only [bind_apply, get_apply, Dialogue.ret_bind]
    cases hfd : handleGetFd t wr.fileHandle with
    | none => exact .inl ⟨rfl, rfl⟩
    | some slot => exact .inr (.inr ⟨rfl, slot.1, slot.2, rfl, rfl⟩)

/-- An open descriptor is used. -/
theorem handleCmptWrite_open {t : Tables} {wr : CmptWriteReq} {i : Fin maxOpenHandles} {fd : Nat}
    (h : handleGetFd t wr.fileHandle = some (i, fd)) (real : Path) :
    handleCmptWrite wr real t = cmptWriteOn wr i fd t := by
  unfold handleCmptWrite
  rw [if_neg (handleGetFd_nonneg h)]
  simp only [bind_apply, get_apply, Dialogue.ret_bind, h]

/-- How an operation starts that does not refuse: with another answer than a parameter error,
or with a call that does not open the file of the legacy paths. -/
def Begins : Dialogue Call Answer (List Bytes × Tables) → Prop
  | .ret r => layout ioBufSize 24 r.1 ≠ layout ioBufSize 24 [leInt fsParamError]
  | .call c _ => ∀ flags, c ≠ .open unknownFile flags

theorem begins_fsHandleOpen {real : Path} (hreal : real ≠ unknownFile) (flags : Nat) (t : Tables)
    (f : Int → List Bytes) (hf : layout ioBufSize 24 (f fsErrEmfileMapped) ≠
      layout ioBufSize 24 [leInt fsParamError]) :
    Begins ((do return f (← fsHandleOpen real flags) : Sys (List Bytes)) t) := by
  simp only [bind_apply, fsHandleOpen, get_apply, Dialogue.ret_bind]
  cases firstFree t.fsHandles with
  | none => exact hf
  | some i =>
      intro _ h
      exact hreal (Call.open.inj h).1

/-- The first segment tells layouts apart. -/
theorem layout_result_ne {rc : Int} (hrc : leInt rc ≠ leInt fsParamError) (rest : List Bytes) :
    layout ioBufSize 24 (leInt rc :: rest) ≠ layout ioBufSize 24 [leInt fsParamError] := by
  intro h
  have hbody : layout ioBufSize 24 [leInt fsParamError] = some (le32 4 ++ leInt fsParamError) := by
    decide
  rw [hbody] at h
  unfold layout at h
  dsimp only at h
  split at h
  · cases h
  cases hrest : layout ioBufSize (24 + 4 + padded (leInt rc).length) rest with
  | none =>
      rw [hrest] at h
      cases h
  | some tail =>
      rw [hrest] at h
      have htake := congrArg (fun body => (body.drop 4).take 4) (Option.some.inj h)
      exact hrc htake

theorem begins_ret {rc : Int} (hrc : leInt rc ≠ leInt fsParamError) (rest : List Bytes)
    (t : Tables) : Begins (.ret (leInt rc :: rest, t)) := layout_result_ne hrc rest

/-- An answer of one segment starts as its result does. -/
theorem begins_result {rc : Sys Int} {t : Tables}
    (h : match rc t with
      | .ret r => leInt r.1 ≠ leInt fsParamError
      | .call c _ => ∀ flags, c ≠ .open unknownFile flags) :
    Begins ((do return [leInt (← rc)] : Sys (List Bytes)) t) := by
  rw [bind_apply]
  cases hrc : rc t with
  | ret r =>
      rw [hrc] at h
      exact begins_ret h [] r.2
  | call c next =>
      rw [hrc] at h
      exact h

theorem closeAllLoop_begins (is : List (Fin fsHandleMax)) (t : Tables) :
    match closeAllLoop is t with
    | .ret _ => True
    | .call c _ => ∀ flags, c ≠ .open unknownFile flags := by
  induction is with
  | nil => trivial
  | cons i rest ih =>
      unfold closeAllLoop
      simp only [bind_apply, get_apply, Dialogue.ret_bind]
      cases t.fsHandles i with
      | none => exact ih
      | some fd => exact fun _ => nofun

/-- Seeking, writing and closing start with a call that opens nothing, or succeed. -/
theorem begins_cmptWriteOn (req : CmptWriteReq) (i : Fin maxOpenHandles) (fd : Nat) (t : Tables) :
    Begins ((do return [leInt (← cmptWriteOn req i fd).1] : Sys (List Bytes)) t) := by
  cases hseek : req.opidMap.testBit 2 with
  | true =>
      simp only [cmptWriteOn, cmptSeek, hseek, if_true]
      exact fun _ => nofun
  | false =>
      cases hwrite : req.opidMap.testBit 5 with
      | true =>
          simp only [cmptWriteOn, cmptSeek, cmptPut, hseek, hwrite, if_true]
          exact fun _ => nofun
      | false =>
          cases hclose : req.opidMap.testBit 4 with
          | true =>
              simp only [cmptWriteOn, cmptSeek, cmptPut, hseek, hwrite, hclose, if_true]
              exact fun _ => nofun
          | false =>
              simp only [cmptWriteOn, cmptSeek, cmptPut, hseek, hwrite, hclose]
              exact begins_ret (show leInt fsNoError ≠ leInt fsParamError by decide) [] t

/-- **How an operation starts.** It refuses, or it does not start like a legacy path. -/
theorem stage2_begins {op : Op} {req : Request} {name real real2 : Path} {answer : Sys (List Bytes)}
    (hreal : real ≠ unknownFile) (hlength : real.length < pathMax)
    (hfound : stage1 op req = .found name real real2)
    (h : stage2 fnmatch op req name real real2 = some answer) (t : Tables) :
    (answer t = .ret ([leInt fsParamError], t) ∧ refuses t op req = true) ∨
      (Begins (answer t) ∧ refuses t op req = false) := by
  cases op with
  -- a legacy path opens the unknown file, and no request resolves to that name
  | «open» =>
      cases h
      exact .inr ⟨begins_fsHandleOpen hreal _ t (fun h => [leInt h]) (by decide), rfl⟩
  | openEx =>
      cases h
      exact .inr ⟨begins_fsHandleOpen hreal _ t (fun h => [leInt h, openExEcho req])
        (layout_result_ne (by decide) _), rfl⟩
  -- the two closings answer with a parameter error at once when the handle is free
  | close =>
      obtain ⟨seg, hseg, hrest⟩ := Option.bind_eq_some_iff.mp h
      cases hrest
      simp only [refuses, hseg, Option.any_some, bind_apply, fsHandleClose, get_apply,
        Dialogue.ret_bind]
      cases entry t.fsHandles (signed (word seg 0)) with
      | none => exact .inl ⟨rfl, rfl⟩
      | some slot => exact .inr ⟨fun _ h => (by cases h), rfl⟩
  | findClose =>
      obtain ⟨seg, hseg, hrest⟩ := Option.bind_eq_some_iff.mp h
      cases hrest
      simp only [refuses, hseg, Option.any_some, bind_apply, fsFindClose, get_apply,
        Dialogue.ret_bind]
      cases entry t.fsFinds (signed (word seg 0)) with
      | none => exact .inl ⟨rfl, rfl⟩
      | some slot => exact .inr ⟨fun _ h => (by cases h), rfl⟩
  -- the table is walked; what is answered does not depend on it
  | closeAll | closeAll2 =>
      cases h
      refine .inr ⟨begins_result ?_, rfl⟩
      have hloop := closeAllLoop_begins
        ((List.finRange fsHandleMax).filter fun i => decide (0 < i.val)) t
      simp only [bind_apply, fsHandleCloseAll]
      generalize closeAllLoop _ t = p at hloop
      cases p with
      | ret r => exact (by decide : leInt fsNoError ≠ leInt fsParamError)
      | call c next => exact hloop
  -- offsets and positions are never answered with the code of a refusal
  | seek =>
      obtain ⟨seg, hseg, h⟩ := Option.bind_eq_some_iff.mp h
      obtain ⟨off, hoff, h⟩ := Option.bind_eq_some_iff.mp h
      obtain ⟨whence, hwhence, h⟩ := Option.bind_eq_some_iff.mp h
      cases h
      refine .inr ⟨begins_result ?_, rfl⟩
      simp only [bind_apply, caseSeek, fsHandleSeek, get_apply, Dialogue.ret_bind]
      cases entry t.fsHandles (signed (word seg 0)) with
      | none => exact (by decide : leInt fsErrGenericMapped ≠ leInt fsParamError)
      | some slot =>
          dsimp only
          split_ifs
          · exact (by decide : leInt fsErrGenericMapped ≠ leInt fsParamError)
          · exact fun _ h => by cases h
  -- a read and a write of a handle that is not open fail with another code
  | read =>
      obtain ⟨seg, hseg, h⟩ := Option.bind_eq_some_iff.mp h
      obtain ⟨want, hwant, h⟩ := Option.bind_eq_some_iff.mp h
      cases h
      simp only [bind_apply, caseRead, fsHandleRead, get_apply, Dialogue.ret_bind]
      cases entry t.fsHandles (signed (word seg 0)) with
      | none => exact .inr ⟨begins_ret (by decide) _ t, rfl⟩
      | some slot => exact .inr ⟨fun _ h => (by cases h), rfl⟩
  | write =>
      obtain ⟨bytes, hbytes, h⟩ := Option.bind_eq_some_iff.mp h
      obtain ⟨seg, hseg, h⟩ := Option.bind_eq_some_iff.mp h
      cases h
      simp only [bind_apply, caseWrite, fsHandleWrite, get_apply, Dialogue.ret_bind]
      cases entry t.fsHandles (signed (word seg 0)) with
      | none => exact .inr ⟨begins_ret (by decide) _ t, rfl⟩
      | some slot => exact .inr ⟨fun _ h => (by cases h), rfl⟩
  -- both paths were resolved in the first stage, which `hfound` says
  | rename | move =>
      cases h
      refine .inr ⟨fun _ h => (by cases h), ?_⟩
      unfold refuses
      rw [hfound]
      rfl
  | findFirst =>
      cases h
      refine .inr ⟨begins_result ?_, rfl⟩
      simp only [bind_apply, caseFindFirst, fsFindOpen, get_apply, Dialogue.ret_bind]
      cases firstFree t.fsFinds with
      | none => exact (by decide : leInt fsErrEmfileMapped ≠ leInt fsParamError)
      | some i => exact fun _ h => by cases h
  -- nothing is found, the name is too long, or the file is looked at: three beginnings
  | findNext =>
      obtain ⟨seg, hseg, h⟩ := Option.bind_eq_some_iff.mp h
      cases h
      refine .inr ⟨?_, rfl⟩
      simp only [bind_apply, caseFindNext, fsFindNext, get_apply, Dialogue.ret_bind]
      cases entry t.fsFinds (signed (word seg 0)) with
      | none => exact begins_ret (by decide) _ t
      | some slot =>
          dsimp only
          cases (findNextLoop fnmatch slot.2.pattern slot.2.dir.names).1 with
          | none => exact begins_ret (by decide) _ _
          | some found =>
              simp only [bind_apply, modify_apply, Dialogue.ret_bind]
              cases childOf slot.2.realDir found with
              | none => exact begins_ret (by decide) _ _
              | some full => exact fun _ h => by cases h
  -- only the type of the system drive is known
  | getDrive =>
      cases h
      simp only [refuses, bind_apply, pure_apply, Dialogue.ret_bind]
      unfold getDrive
      by_cases htype : req.wordOr 0 = 4
      · rw [if_pos htype, htype]
        exact .inr ⟨begins_ret (by decide) [] t, rfl⟩
      · rw [if_neg htype]
        exact .inl ⟨rfl, by simpa using htype⟩
  | getClusterSize =>
      cases h
      refine .inr ⟨begins_result ?_, rfl⟩
      unfold caseGetClusterSize
      split_ifs
      · exact (by decide : leInt fsErrGenericMapped ≠ leInt fsParamError)
      · exact fun _ h => by cases h
  -- without the bit `OPEN` a compound read is refused without a call
  | cmptRead =>
      obtain ⟨seg, hseg, h⟩ := Option.bind_eq_some_iff.mp h
      cases h
      simp only [refuses, hfound, hseg, Option.any_some, CmptReadReq.refused, bind_apply,
        caseCmptRead, handleCmptRead]
      by_cases hopen : (CmptReadReq.ofBytes seg).opidMap.testBit 0 = true
      · rw [if_pos hopen, hopen]
        refine .inr ⟨fun _ h => hreal (Call.open.inj h).1, rfl⟩
      · rw [if_neg hopen, Bool.eq_false_iff.mpr hopen]
        exact .inl ⟨rfl, rfl⟩
  -- a compound write is refused, opens its file, or writes through an open handle
  | cmptWrite =>
      obtain ⟨seg, hseg, h⟩ := Option.bind_eq_some_iff.mp h
      cases h
      simp only [refuses, hfound, hseg, Option.any_some]
      rcases handleCmptWrite_cases (.ofBytes seg) hlength t with
        ⟨hyes, hrun⟩ | ⟨hno, flags, next, hrun⟩ | ⟨hno, i, fd, -, hrun⟩
      · refine .inl ⟨?_, hyes⟩
        simp only [bind_apply, hrun, Dialogue.ret_bind, pure_apply]
      · refine .inr ⟨?_, hno⟩
        simp only [bind_apply, hrun]
        exact fun _ h => hreal (Call.open.inj h).1
      · refine .inr ⟨?_, hno⟩
        have hwrite := begins_cmptWriteOn (CmptWriteReq.ofBytes seg) i fd t
        simp only [bind_apply, Dialogue.bind_assoc, Dialogue.ret_bind, pure_apply, hrun]
          at hwrite ⊢
        exact hwrite
  -- the fixed answers
  | restore | otpQueryLength | otpRead | otpWrite | otpLock | lf | cdf | sdf | uk =>
      cases h
      exact .inr ⟨begins_ret (by decide) [] t, rfl⟩
  | binRegion =>
      cases h
      exact .inl ⟨rfl, rfl⟩
  -- the rest starts with a call of its own, which is not `open`
  | xdelete =>
      cases h
      exact .inr ⟨fun _ h => (by cases h), rfl⟩
  | getFolderSize =>
      cases h
      exact .inr ⟨fun _ h => (by cases h), rfl⟩
  | createDir | removeDir | delete | getAttributes | getFileSize | count | getFileDetail
  | getDiskInfo =>
      cases h
      exact .inr ⟨fun _ h => (by cases h), rfl⟩

theorem stage1_found {op : Op} {req : Request} {name real real2 : Path}
    (h : stage1 op req = .found name real real2) :
    real ≠ unknownFile ∧ real.length < pathMax := by
  unfold stage1 at h
  split at h
  · cases h
    decide
  split at h
  · cases h
  split at h
  · cases h
  rename_i hresolve
  have hfits := Nat.lt_of_lt_of_le (fsResolve_length hresolve) (by decide : realCap ≤ pathMax)
  split at h
  · split at h
    · cases h
    · cases h
      exact ⟨fun heq => fsResolve_ne_unknownFile (heq ▸ hresolve), hfits⟩
  · cases h
    exact ⟨fun heq => fsResolve_ne_unknownFile (heq ▸ hresolve), hfits⟩

/-- How a dispatched request starts that is not refused. -/
def Distinct (hdr : Header) (opId : Nat) : Dialogue Call Answer (Bytes × Tables) → Prop
  | .ret r => r.1 ≠ buildResultResp hdr opId fsParamError
  | .call c _ => ∀ flags, c ≠ .open unknownFile flags

theorem distinct_missing (hdr : Header) (opId : Nat) (t : Tables) :
    Distinct hdr opId (.ret (buildResultResp hdr opId fsErrEnoentMapped, t)) := by
  show buildResp hdr opId [leInt fsErrEnoentMapped] ≠ _
  exact buildResp_ne_paramError (by decide)

/-- A request whose first path is not usable is not refused with a parameter error. -/
theorem refuses_of_no_path {op : Op} {req : Request}
    (h : stage1 op req = .unusable ∨ stage1 op req = .refused fsErrEnoentMapped) (t : Tables) :
    refuses t op req = false := by
  cases op with
  | rename | move =>
      rcases h with h | h
      · simp only [refuses, h]
        rfl
      · simp only [refuses, h]
        rfl
  | cmptRead | cmptWrite =>
      rcases h with h | h
      · simp only [refuses, h]
      · simp only [refuses, h]
  | close | findClose | getDrive | binRegion =>
      rcases h with h | h
      · cases h
      · cases h
  | _ => rfl

/-- A request without a segment that its operation needs is not refused. -/
theorem refuses_of_stage2_none {op : Op} {req : Request} {name real real2 : Path}
    (hfound : stage1 op req = .found name real real2)
    (h : stage2 fnmatch op req name real real2 = none) (t : Tables) : refuses t op req = false := by
  cases op with
  | close | findClose =>
      cases hseg : req.segOf 0 4 with
      | none => simp only [refuses, hseg, Option.any_none]
      | some seg =>
          simp only [stage2, hseg, result] at h
          cases h
  | cmptRead =>
      cases hseg : req.segOf 1 cmptReadSize with
      | none => simp only [refuses, hfound, hseg, Option.any_none]
      | some seg =>
          simp only [stage2, hseg] at h
          cases h
  | cmptWrite =>
      cases hseg : req.segOf 1 cmptWriteSize with
      | none => simp only [refuses, hfound, hseg, Option.any_none]
      | some seg =>
          simp only [stage2, hseg, result] at h
          cases h
  | seek | read | write | findNext => rfl
  | _ => cases h

/-- **How a dispatched request starts**: its operation refuses it, or it starts otherwise than
both legacy paths. -/
theorem dispatch_begins (fnmatch : Path → Path → Bool) (hdr : Header) (op : Op) (req : Request) (t : Tables) :
    (dispatch fnmatch hdr op req t = .ret (buildResultResp hdr req.opId fsParamError, t) ∧
        refuses t op req = true) ∨
      (Distinct hdr req.opId (dispatch fnmatch hdr op req t) ∧ refuses t op req = false) := by
  unfold dispatch
  cases hstage : stage1 op req with
  | unusable =>
      exact .inr ⟨distinct_missing hdr req.opId t, refuses_of_no_path (.inl hstage) t⟩
  | refused rc =>
      rcases stage1_refused hstage with ⟨rfl, rfl | rfl⟩ | rfl
      · exact .inl ⟨rfl, by unfold refuses; rw [hstage]; rfl⟩
      · exact .inl ⟨rfl, by unfold refuses; rw [hstage]; rfl⟩
      · exact .inr ⟨distinct_missing hdr req.opId t, refuses_of_no_path (.inr hstage) t⟩
  | found name real real2 =>
      obtain ⟨hreal, hlength⟩ := stage1_found hstage
      dsimp only
      cases hanswer : stage2 fnmatch op req name real real2 with
      | none =>
          exact .inr ⟨distinct_missing hdr req.opId t, refuses_of_stage2_none hstage hanswer t⟩
      | some answer =>
          rcases stage2_begins hreal hlength hstage hanswer t with ⟨hrefuses, hyes⟩ | ⟨hbegins, hno⟩
          · refine .inl ⟨?_, hyes⟩
            simp only [bind_apply, hrefuses, Dialogue.ret_bind, pure_apply]
            rfl
          · refine .inr ⟨?_, hno⟩
            show Distinct hdr req.opId (answer t >>= _)
            cases hrun : answer t with
            | ret r =>
                rw [hrun] at hbegins
                exact buildResp_ne_paramError hbegins
            | call c next =>
                rw [hrun] at hbegins
                exact hbegins

/-! ### Requests that are taken for a compound one -/

/-- **The datagrams of the protocol**: of a size that `main` reads, on the channel of the file
service, whole, with a payload that the parser accepts and an operation of the switch. -/
structure Accepts (datagram : Bytes) (op : Op) (req : Request) : Prop where
  header : headerSize ≤ datagram.length
  size : datagram.length ≤ ioBufSize
  channel : (Header.ofBytes datagram).channel = ccciFsChannelRx
  whole : (Header.ofBytes datagram).continues = false
  parsed : fsParseReq (datagram.drop headerSize) = some req
  known : Op.ofId req.opId = some op

theorem fsParseReq_opId {payload : Bytes} {req : Request} (h : fsParseReq payload = some req) :
    8 ≤ payload.length ∧ req.opId = word payload 0 := by
  unfold fsParseReq at h
  split at h
  · cases h
  split at h
  · cases h
  rename_i hlength _
  obtain ⟨segs, -, hreq⟩ := Option.bind_eq_some_iff.mp h
  cases hreq
  exact ⟨Nat.le_of_not_lt hlength, rfl⟩

/-- A compound write, answered with its result. -/
def answerWrite (hdr : Header) (opId : Nat) (p : Dialogue Call Answer ((Int × Int) × Tables)) :
    Dialogue Call Answer (Option Bytes × Tables) :=
  p >>= fun r => .ret (some (buildResultResp hdr opId r.1.1), r.2)

/-- A dispatched request, answered. -/
def answer (p : Dialogue Call Answer (Bytes × Tables)) :
    Dialogue Call Answer (Option Bytes × Tables) :=
  p >>= fun r => .ret (some r.1, r.2)

variable {datagram : Bytes} {op : Op} {req : Request}

/-- **One turn of the loop.** -/
theorem serve_accepts (h : Accepts datagram op req) (t : Tables) :
    serve fnmatch datagram t =
      if sniffsWrite (datagram.drop headerSize) then
        answerWrite (Header.ofBytes datagram) req.opId
          (handleCmptWrite (.ofBytes (datagram.drop headerSize)) unknownFile t)
      else if sniffsRead (datagram.drop headerSize) then
        caseCmptRead (.ofBytes ((datagram.drop headerSize).drop 0x30)) unknownFile t >>= fun r =>
          .ret (some (buildResp (Header.ofBytes datagram) req.opId r.1), r.2)
      else answer (dispatch fnmatch (Header.ofBytes datagram) op req t) := by
  obtain ⟨hlength, hop⟩ := fsParseReq_opId h.parsed
  unfold serve
  rw [if_neg (Nat.not_lt_of_le h.header)]
  dsimp only
  have hid : (if (datagram.drop headerSize).length ≥ 4 then word (datagram.drop headerSize) 0
      else 0) = req.opId := by
    rw [if_pos (by omega), hop]
  rw [if_neg (not_not_intro h.channel), if_neg (by rw [h.whole]; decide)]
  simp only [hid, h.parsed, h.known]
  split
  · rfl
  split
  · rfl
  · rfl

/-- Both readings of a compound write name an open descriptor, the same one, and both seek and
write the same, and leave it open. -/
structure SameWrite (t : Tables) (raw wr : CmptWriteReq) : Prop where
  descriptor : ∃ i j fd, handleGetFd t raw.fileHandle = some (i, fd) ∧
    handleGetFd t wr.fileHandle = some (j, fd)
  seeks : wr.opidMap.testBit 2 = true
  writes : wr.opidMap.testBit 5 = true
  leaves : wr.opidMap.testBit 4 = false
  offset : wr.offset = raw.offset
  whence : wr.whence = raw.whence
  written : wr.written = raw.written

/-- **The condition**: the legacy tests do not apply; or both their reading of the request and
its own operation refuse it; or a compound write is read as the same one from the wrong place. -/
structure Undisturbed (t : Tables) (payload : Bytes) (op : Op) (req : Request) : Prop where
  write : sniffsWrite payload = true →
    ((CmptWriteReq.ofBytes payload).refused t = true ∧ refuses t op req = true) ∨
      (op = .cmptWrite ∧ (∃ name real real2, stage1 op req = .found name real real2) ∧
        ∃ seg, req.segOf 1 cmptWriteSize = some seg ∧
          SameWrite t (.ofBytes payload) (.ofBytes seg))
  read : sniffsWrite payload = false → sniffsRead payload = true →
    (CmptReadReq.ofBytes (payload.drop 0x30)).refused = true ∧ refuses t op req = true

/-- `lseek` and `write` with the answer of a compound write. -/
def seekAndPut (hdr : Header) (opId fd offset : Nat) (whence : Int) (bytes : Bytes) (t : Tables) :
    Dialogue Call Answer (Option Bytes × Tables) :=
  .call (.lseek fd offset whence) fun
    | .error e => .ret (some (buildResultResp hdr opId (errnoToFsResult e)), t)
    | .ok _ => .call (.write fd bytes) fun
      | .error e => .ret (some (buildResultResp hdr opId (errnoToFsResult e)), t)
      | .ok _ => .ret (some (buildResultResp hdr opId fsNoError), t)

/-- A request that seeks and writes and does not close. -/
theorem answerWrite_cmptWriteOn {wr : CmptWriteReq} (hseek : wr.opidMap.testBit 2 = true)
    (hwrite : wr.opidMap.testBit 5 = true) (hclose : wr.opidMap.testBit 4 = false)
    (hdr : Header) (opId : Nat) (i : Fin maxOpenHandles) (fd : Nat) (t : Tables) :
    answerWrite hdr opId (cmptWriteOn wr i fd t) =
      seekAndPut hdr opId fd wr.offset wr.whence wr.written t := by
  simp only [seekAndPut, answerWrite, cmptWriteOn, cmptSeek, cmptPut, hseek, hwrite, hclose, if_true]
  refine congrArg (Dialogue.call _) (funext fun sought => ?_)
  cases sought with
  | error e => rfl
  | ok pos =>
      refine congrArg (Dialogue.call _) (funext fun put => ?_)
      cases put with
      | error e => rfl
      | ok n => rfl

/-- The calls of a compound write on an open descriptor. -/
theorem observe_cmptWriteOn (wr : CmptWriteReq) (hdr : Header) (opId : Nat)
    (i : Fin maxOpenHandles) (fd : Nat) (t : Tables) :
    (Dialogue.observe succeeds () (answerWrite hdr opId (cmptWriteOn wr i fd t))).1 =
      (if wr.opidMap.testBit 2 then [Call.lseek fd wr.offset wr.whence] else []) ++
      (if wr.opidMap.testBit 5 then [Call.write fd wr.written] else []) ++
      (if wr.opidMap.testBit 4 then [Call.close fd] else []) := by
  unfold answerWrite cmptWriteOn cmptSeek cmptPut
  cases wr.opidMap.testBit 2 <;> cases wr.opidMap.testBit 5 <;> cases wr.opidMap.testBit 4 <;> rfl

/-- Two compound writes on open descriptors, the first of which seeks and writes and does not
close, are the same program only when they do the same. -/
theorem cmptWriteOn_same {raw wr : CmptWriteReq} (hseek : raw.opidMap.testBit 2 = true)
    (hwrite : raw.opidMap.testBit 5 = true) (hclose : raw.opidMap.testBit 4 = false)
    {hdr : Header} {opId : Nat} {i j : Fin maxOpenHandles} {fd fd' : Nat} {t : Tables}
    (h : answerWrite hdr opId (cmptWriteOn raw i fd t) =
      answerWrite hdr opId (cmptWriteOn wr j fd' t)) :
    fd = fd' ∧ wr.opidMap.testBit 2 = true ∧ wr.opidMap.testBit 5 = true ∧
      wr.opidMap.testBit 4 = false ∧ wr.offset = raw.offset ∧ wr.whence = raw.whence ∧
      wr.written = raw.written := by
  have hcalls := congrArg (fun p => (Dialogue.observe succeeds () p).1) h
  simp only [observe_cmptWriteOn, hseek, hwrite, hclose] at hcalls
  cases hseek' : wr.opidMap.testBit 2 with
  | false => cases hwrite' : wr.opidMap.testBit 5 <;> cases hclose' : wr.opidMap.testBit 4 <;>
      simp [hseek', hwrite', hclose'] at hcalls
  | true =>
      cases hwrite' : wr.opidMap.testBit 5 with
      | false => cases hclose' : wr.opidMap.testBit 4 <;> simp [hseek', hwrite', hclose'] at hcalls
      | true =>
          cases hclose' : wr.opidMap.testBit 4 with
          | true => simp [hseek', hwrite', hclose'] at hcalls
          | false =>
              simp only [hseek', hwrite', hclose', if_true, Bool.false_eq_true, if_false,
                List.append_nil, List.cons_append, List.nil_append, List.cons.injEq,
                Call.lseek.injEq, Call.write.injEq, and_true] at hcalls
              obtain ⟨⟨hfd, hoffset, hwhence⟩, -, hwritten⟩ := hcalls
              exact ⟨hfd, rfl, rfl, rfl, by omega, hwhence.symm, hwritten.symm⟩

/-- A dispatched compound write. -/
theorem answer_dispatch_cmptWrite (fnmatch : Path → Path → Bool) {name real real2 : Path} {seg : Bytes}
    (hstage : stage1 .cmptWrite req = .found name real real2)
    (hseg : req.segOf 1 cmptWriteSize = some seg) (hdr : Header) (t : Tables) :
    answer (dispatch fnmatch hdr .cmptWrite req t) =
      answerWrite hdr req.opId (handleCmptWrite (.ofBytes seg) real t) := by
  unfold dispatch answer answerWrite buildResultResp
  rw [hstage]
  simp only [stage2, hseg, result, bind_apply, Option.bind_eq_bind, Option.bind_some,
    Dialogue.bind_assoc, Dialogue.ret_bind, pure_apply]

/-- The operations whose codes look like a compound write do not touch a descriptor, except for
the compound write itself. -/
theorem dispatch_touches (hbit : op.id.testBit 5 = true) (hdr : Header) (t : Tables) {c : Call}
    {next : Answer c → Dialogue Call Answer (Bytes × Tables)}
    (h : dispatch fnmatch hdr op req t = .call c next)
    (hc : (∀ file flags, c ≠ .open file flags) ∧ ∀ file, c ≠ .stat file) :
    op = .cmptWrite ∧ (∃ name real real2, stage1 op req = .found name real real2) ∧
      ∃ seg i fd, req.segOf 1 cmptWriteSize = some seg ∧
        handleGetFd t (CmptWriteReq.ofBytes seg).fileHandle = some (i, fd) ∧
        answer (dispatch fnmatch hdr op req t) =
          answerWrite hdr req.opId (cmptWriteOn (.ofBytes seg) i fd t) := by
  unfold dispatch at h ⊢
  cases hstage : stage1 op req with
  | unusable =>
      rw [hstage] at h
      cases h
  | refused rc =>
      rw [hstage] at h
      cases h
  | found name real real2 =>
      rw [hstage] at h
      dsimp only at h
      -- The bit of a compound write is in five other codes; none of them asks for a descriptor.
      cases op with
      | otpLock | restore | binRegion => cases h
      | getFileDetail =>
          cases h
          exact absurd rfl (hc.2 real)
      | cmptRead =>
          cases hseg : req.segOf 1 cmptReadSize with
          | none =>
              simp only [stage2, hseg] at h
              cases h
          | some seg =>
              simp only [stage2, hseg, bind_apply, Option.bind_eq_bind, Option.bind_some,
                caseCmptRead, handleCmptRead] at h
              split at h
              · cases h
                -- A compound read begins by opening the file.
                exact absurd rfl (hc.1 real _)
              · cases h
      | cmptWrite =>
          refine ⟨rfl, ⟨name, real, real2, rfl⟩, ?_⟩
          cases hseg : req.segOf 1 cmptWriteSize with
          | none =>
              simp only [stage2, hseg] at h
              cases h
          | some seg =>
              -- What the request is answered with, once its second stage is known to run.
              have hdispatch := answer_dispatch_cmptWrite fnmatch hstage hseg hdr t
              unfold dispatch at hdispatch
              rw [hstage] at hdispatch
              rw [hdispatch]
              simp only [stage2, hseg, bind_apply, Option.bind_eq_bind, Option.bind_some,
                result] at h
              -- Of the three ways to begin only the one through a handle is left.
              rcases handleCmptWrite_cases (.ofBytes seg) (stage1_found hstage).2 t with
                ⟨-, hrun⟩ | ⟨-, flags, next', hrun⟩ | ⟨-, i, fd, hfd, hrun⟩
              · rw [hrun] at h
                cases h
              · rw [hrun] at h
                cases h
                exact absurd rfl (hc.1 real flags)
              · exact ⟨seg, i, fd, rfl, hfd, by rw [hrun]⟩
      | _ => exact absurd hbit (by decide)

theorem answer_ret {p : Dialogue Call Answer (Bytes × Tables)} {reply : Bytes} {t : Tables}
    (h : .ret (some reply, t) = answer p) : p = .ret (reply, t) := by
  cases p with
  | ret r =>
      cases h
      rfl
  | call c next => cases h

theorem answer_call {p : Dialogue Call Answer (Bytes × Tables)} {c : Call}
    {next : Answer c → Dialogue Call Answer (Option Bytes × Tables)}
    (h : .call c next = answer p) : ∃ next', p = .call c next' := by
  cases p with
  | ret r => cases h
  | call c' next' =>
      cases h
      exact ⟨next', rfl⟩

/-- A request that is answered with a parameter error at once is refused by its operation. -/
theorem refuses_of_answer {hdr : Header} {t : Tables}
    (h : .ret (some (buildResultResp hdr req.opId fsParamError), t) =
      answer (dispatch fnmatch hdr op req t)) : refuses t op req = true := by
  rcases dispatch_begins fnmatch hdr op req t with ⟨-, hyes⟩ | ⟨hdistinct, -⟩
  · exact hyes
  · rw [answer_ret h] at hdistinct
    exact absurd rfl hdistinct

/-- No operation starts by opening the file of the legacy paths. -/
theorem answer_ne_open {hdr : Header} {t : Tables} {flags : OpenFlags}
    {next : Answer (.open unknownFile flags) → Dialogue Call Answer (Option Bytes × Tables)} :
    .call (.open unknownFile flags) next ≠ answer (dispatch fnmatch hdr op req t) := by
  intro h
  obtain ⟨next', hcall⟩ := answer_call h
  rcases dispatch_begins fnmatch hdr op req t with ⟨hret, -⟩ | ⟨hdistinct, -⟩
  · rw [hcall] at hret
    cases hret
  · rw [hcall] at hdistinct
    exact hdistinct flags rfl

/-- A compound write that writes starts with `lseek` or `write`. -/
theorem cmptWriteOn_starts {raw : CmptWriteReq} (hwrite : raw.opidMap.testBit 5 = true)
    (hdr : Header) (opId : Nat) (i : Fin maxOpenHandles) (fd : Nat) (t : Tables) :
    ∃ c next, answerWrite hdr opId (cmptWriteOn raw i fd t) = .call c next ∧
      (∀ file flags, c ≠ .open file flags) ∧ ∀ file, c ≠ .stat file := by
  cases hseek : raw.opidMap.testBit 2 with
  | true =>
      simp only [answerWrite, cmptWriteOn, cmptSeek, hseek, if_true]
      exact ⟨_, _, rfl, fun _ _ => nofun, fun _ => nofun⟩
  | false =>
      simp only [answerWrite, cmptWriteOn, cmptSeek, cmptPut, hseek, hwrite, if_true]
      exact ⟨_, _, rfl, fun _ _ => nofun, fun _ => nofun⟩

/-- **The dispatch of a request.** For every datagram of the protocol and all tables: whatever
the file system answers, the calls made, the reply and the tables behind are those of the
request's own operation on its own segments, exactly when the legacy tests do not disturb. -/
theorem serve_own_operation_iff (h : Accepts datagram op req) (t : Tables) :
    (∀ (ω : Type) (env : Dialogue.Environment Call Answer ω) (w : ω),
        Dialogue.observe env w (serve fnmatch datagram t) =
          Dialogue.observe env w
            (answer (dispatch fnmatch (Header.ofBytes datagram) op req t))) ↔
      Undisturbed t (datagram.drop headerSize) op req := by
  rw [← Dialogue.eq_iff_observe, serve_accepts h]
  generalize hpayload : datagram.drop headerSize = payload
  generalize Header.ofBytes datagram = hdr
  have hid : op.id = word payload 0 := by
    rw [Op.ofId_eq.mp h.known, (fsParseReq_opId h.parsed).2, hpayload]
  have hunknown : unknownFile.length < pathMax := by decide
  constructor
  · intro heq
    constructor
    · intro hwrite
      rw [if_pos hwrite] at heq
      have hbit : op.id.testBit 5 = true := by
        rw [hid]
        exact (Bool.and_eq_true_iff.mp hwrite).2
      rcases handleCmptWrite_cases (.ofBytes payload) hunknown t with
        ⟨hyes, hrun⟩ | ⟨-, flags, next, hrun⟩ | ⟨-, i, fd, hfd, hrun⟩
      · rw [hrun] at heq
        exact .inl ⟨hyes, refuses_of_answer heq⟩
      · rw [hrun] at heq
        exact absurd heq answer_ne_open
      · -- the legacy path touches a descriptor: so does the operation
        rw [hrun] at heq
        have hmap : (CmptWriteReq.ofBytes payload).opidMap = op.id := hid.symm
        obtain ⟨c, next, hstarts, hc⟩ := cmptWriteOn_starts (by rw [hmap]; exact hbit)
          hdr req.opId i fd t
        obtain ⟨next', hcall⟩ := answer_call (hstarts.symm.trans heq)
        obtain ⟨rfl, hfound, seg, j, fd', hseg, hfd', hanswer⟩ := dispatch_touches hbit hdr t hcall hc
        rw [hanswer] at heq
        obtain ⟨rfl, hseeks, hwrites, hleaves, hoffset, hwhence, hwritten⟩ :=
          cmptWriteOn_same (by rw [hmap]; decide) (by rw [hmap]; decide) (by rw [hmap]; decide) heq
        exact .inr ⟨rfl, hfound, seg, hseg, ⟨i, j, fd, hfd, hfd'⟩, hseeks, hwrites, hleaves, hoffset,
          hwhence, hwritten⟩
    · intro hwrite hread
      rw [if_neg (by rw [hwrite]; decide), if_pos hread] at heq
      unfold caseCmptRead handleCmptRead at heq
      cases hopen : (CmptReadReq.ofBytes (payload.drop 0x30)).opidMap.testBit 0 with
      | true =>
          rw [hopen] at heq
          exact absurd heq answer_ne_open
      | false =>
          rw [hopen] at heq
          exact ⟨by unfold CmptReadReq.refused; rw [hopen]; rfl, refuses_of_answer heq⟩
  · rintro ⟨hwrites, hreads⟩
    have hrefuses : refuses t op req = true → answer (dispatch fnmatch hdr op req t) =
        .ret (some (buildResultResp hdr req.opId fsParamError), t) := by
      intro hyes
      rcases dispatch_begins fnmatch hdr op req t with ⟨hret, -⟩ | ⟨-, hno⟩
      · rw [hret]
        rfl
      · rw [hyes] at hno
        cases hno
    cases hwrite : sniffsWrite payload with
    | true =>
        rw [if_pos rfl]
        rcases hwrites hwrite with ⟨hraw, hown⟩ | ⟨rfl, ⟨name, real, real2, hstage⟩, seg, hseg, hsame⟩
        · rcases handleCmptWrite_cases (.ofBytes payload) hunknown t with
            ⟨-, hrun⟩ | ⟨hno, -⟩ | ⟨hno, -⟩
          · rw [hrun, hrefuses hown]
            rfl
          · rw [hraw] at hno
            cases hno
          · rw [hraw] at hno
            cases hno
        · obtain ⟨⟨i, j, fd, hfd, hfd'⟩, hseeks, hputs, hleaves, hoffset, hwhence, hwritten⟩ := hsame
          have hmap : (CmptWriteReq.ofBytes payload).opidMap = Op.cmptWrite.id := hid.symm
          rw [answer_dispatch_cmptWrite fnmatch hstage hseg, handleCmptWrite_open hfd,
            handleCmptWrite_open hfd', answerWrite_cmptWriteOn hseeks hputs hleaves,
            answerWrite_cmptWriteOn (by rw [hmap]; decide) (by rw [hmap]; decide)
              (by rw [hmap]; decide), hoffset, hwhence, hwritten]
    | false =>
        rw [if_neg Bool.false_ne_true]
        cases hread : sniffsRead payload with
        | true =>
            obtain ⟨hraw, hown⟩ := hreads hwrite hread
            rw [if_pos rfl, hrefuses hown]
            unfold caseCmptRead handleCmptRead
            rw [(Bool.not_eq_true' _).mp hraw]
            rfl
        | false => rw [if_neg Bool.false_ne_true]

/-! ### Two requests -/

/-- `GetDrive` for the system drive. -/
def getDriveDatagram : Bytes := datagramOf [0x101a, 1, 4, 4] []

theorem getDriveDatagram_accepts :
    Accepts getDriveDatagram .getDrive ⟨0x101a, [[4, 0, 0, 0]]⟩ := by
  constructor <;> decide

theorem serve_own_operation_iff_getDrive :
    Accepts getDriveDatagram .getDrive ⟨0x101a, [[4, 0, 0, 0]]⟩ ∧
      ∀ (ω : Type) (env : Dialogue.Environment Call Answer ω) (w : ω),
        Dialogue.observe env w (serve (fun _ _ => false) getDriveDatagram Tables.init) =
          Dialogue.observe env w (answer (dispatch (fun _ _ => false)
            (Header.ofBytes getDriveDatagram) .getDrive ⟨0x101a, [[4, 0, 0, 0]]⟩ Tables.init)) := by
  refine ⟨getDriveDatagram_accepts,
    (serve_own_operation_iff getDriveDatagram_accepts Tables.init).mpr ⟨fun h => ?_, fun _ h => ?_⟩⟩
  · exact absurd h (by decide)
  · exact absurd h (by decide)

/-- The data of a write: the word at offset `0x30` of its payload looks like a compound read. -/
def disturbingData : Bytes := List.replicate 28 0 ++ [9] ++ List.replicate 35 0

/-- `Write` with a handle that is not open. -/
def writeDatagram : Bytes := datagramOf [0x1004, 2, 4, 1, 64] disturbingData

/-- The write is taken for a compound read, and a file is opened that the request does not
name. -/
theorem serve_not_own_operation :
    ¬ ∀ (fnmatch : Path → Path → Bool) (datagram : Bytes) (op : Op) (req : Request) (t : Tables),
      Accepts datagram op req →
      ∀ (ω : Type) (env : Dialogue.Environment Call Answer ω) (w : ω),
        Dialogue.observe env w (serve fnmatch datagram t) =
          Dialogue.observe env w (answer (dispatch fnmatch (Header.ofBytes datagram) op req t)) := by
  intro hclaim
  have haccepts : Accepts writeDatagram .write ⟨0x1004, [[1, 0, 0, 0], disturbingData]⟩ := by
    constructor <;> decide
  have hsame := hclaim (fun _ _ => false) _ _ _ Tables.init haccepts Unit succeeds ()
  have hcalls := congrArg
    (fun o => o.1.any fun c => c == .open unknownFile ⟨true, false, false, false⟩) hsame
  revert hcalls
  decide

end Mindone.Fsd
