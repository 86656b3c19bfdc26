import Mindone.Fsd.Descriptors

/-!
# Mindone.Fsd.Accounting

Runs of the file service: datagrams, what the file system answers to the calls made for them,
and the replies. Over every run with a file system that hands out new descriptors, the tables
record what is open, nothing is closed twice, and a handle that was handed out designates the
same open file until it is closed. As long as every compound write that opens a file comes to
its closing, none of them leaves a descriptor behind.
-/

namespace Mindone.Fsd

open Mindone.Lib

/-! ### What a datagram is taken for -/

/-- The request that is dispatched, with its operation. -/
def dispatched (datagram : Bytes) : Option (Op × Request) :=
  let payload := datagram.drop headerSize
  if dropped datagram || sniffsWrite payload || sniffsRead payload then none
  else do
    let req ← fsParseReq payload
    let op ← Op.ofId req.opId
    return (op, req)

/-- A datagram that is dropped or sniffed is not dispatched. -/
theorem dispatched_none {datagram : Bytes}
    (h : (dropped datagram || sniffsWrite (datagram.drop headerSize) ||
      sniffsRead (datagram.drop headerSize)) = true) : dispatched datagram = none := if_pos h

/-- **A dispatched request is the one in the datagram.** -/
theorem dispatched_some_iff {datagram : Bytes} {op : Op} {req : Request} :
    dispatched datagram = some (op, req) ↔
      dropped datagram = false ∧ sniffsWrite (datagram.drop headerSize) = false ∧
        sniffsRead (datagram.drop headerSize) = false ∧
        fsParseReq (datagram.drop headerSize) = some req ∧ Op.ofId req.opId = some op := by
  constructor
  · intro h
    unfold dispatched at h
    dsimp only at h
    split at h
    · cases h
    rename_i hplain
    rw [Bool.not_eq_true, Bool.or_eq_false_iff, Bool.or_eq_false_iff] at hplain
    obtain ⟨req', hparsed, h⟩ := Option.bind_eq_some_iff.mp h
    obtain ⟨op', hknown, h⟩ := Option.bind_eq_some_iff.mp h
    cases h
    exact ⟨hplain.1.1, hplain.1.2, hplain.2, hparsed, hknown⟩
  · rintro ⟨hdrop, hwrite, hread, hparsed, hknown⟩
    unfold dispatched
    dsimp only
    rw [hdrop, hwrite, hread, hparsed]
    show (Op.ofId req.opId).bind _ = _
    rw [hknown]
    rfl

/-- The compound write that is made of a datagram, own or sniffed. -/
def compoundWrite (datagram : Bytes) : Option CmptWriteReq :=
  if !dropped datagram && sniffsWrite (datagram.drop headerSize) then
    some (.ofBytes (datagram.drop headerSize))
  else
    match dispatched datagram with
    | some (.cmptWrite, req) =>
        match stage1 .cmptWrite req with
        | .found _ _ _ => (req.segOf 1 cmptWriteSize).map .ofBytes
        | _ => none
    | _ => none

/-- The handles of files that a request closes. -/
def Op.closesFile (op : Op) (req : Request) (i : Fin fsHandleMax) : Prop :=
  match op with
  | .close => ∃ h, req.segOf 0 4 = some h ∧ signed (word h 0) = i.val
  | .closeAll | .closeAll2 => True
  | _ => False

/-- The handles of searches that a request closes. -/
def Op.closesFind (op : Op) (req : Request) (i : Fin fsFindMax) : Prop :=
  match op with
  | .findClose => ∃ h, req.segOf 0 4 = some h ∧ signed (word h 0) = i.val
  | _ => False

/-- `Close` for this handle, or `CloseAll`. -/
def closesFile (datagram : Bytes) (i : Fin fsHandleMax) : Prop :=
  ∃ op req, dispatched datagram = some (op, req) ∧ op.closesFile req i

/-- `FindClose` for this handle. -/
def closesFind (datagram : Bytes) (i : Fin fsFindMax) : Prop :=
  ∃ op req, dispatched datagram = some (op, req) ∧ op.closesFind req i

/-- The first segment of a reply, as a number. -/
def returned (reply : Option Bytes) : Option Int := do
  let resp ← fsParseReq ((← reply).drop headerSize)
  return signed (word (← resp.segOf 0 4) 0)

/-! ### One request -/

section Requests

variable {fnmatch : Path → Path → Bool} {L : Ledger} {t : Tables}

/-- What the segments of an answer say about a handle that was handed out. -/
def Hands (op : Op) (L : Ledger) (L' : Ledger) (segs : List Bytes) (t' : Tables) : Prop :=
  (op = .open ∨ op = .openEx →
      ∃ h rest, segs = leInt h :: rest ∧ Fits segs ∧ Small h ∧ Opens L h L' t') ∧
    (op = .findFirst →
      ∃ h rest, segs = leInt h :: rest ∧ Fits segs ∧ Small h ∧ Searches L h L' t')

/-- An operation that hands out nothing. -/
def Op.hands (op : Op) : Bool :=
  match op with
  | .open | .openEx | .findFirst => true
  | _ => false

theorem hands_nothing {op : Op} (h : op.hands = false) (L L' : Ledger) (segs : List Bytes)
    (t' : Tables) : Hands op L L' segs t' := by
  refine ⟨?_, ?_⟩
  · rintro (rfl | rfl)
    · cases h
    · cases h
  · rintro rfl
    cases h

/-- What an operation leaves: the tables as they should be, the entries of compound writes as they
were, and the handle that it hands out. -/
structure Leaves (op : Op) (req : Request) (L : Ledger) (t : Tables) (L' : Ledger)
    (r : List Bytes × Tables) : Prop where
  step : Step (op.closesFile req) (op.closesFind req) L t L' r.2
  handles : r.2.handles = t.handles
  hands : Hands op L L' r.1 r.2

theorem Same.leaves {op : Op} {req : Request} {L' : Ledger} {r : List Bytes × Tables}
    (h : Same L t L' r.2) (hL : Accounted L t) (hop : op.hands = false) :
    Leaves op req L t L' r :=
  ⟨h.step hL, by rw [h.tables], hands_nothing hop _ _ _ _⟩

theorem Neutral.leaves {op : Op} {req : Request} {x : Sys (List Bytes)} (hx : Neutral x)
    (hL : Accounted L t) (hop : op.hands = false) :
    Dialogue.Keeps descriptors (Leaves op req L t) L (x t) :=
  (hx L t).mono fun _ _ h => h.leaves hL hop

theorem neutral_result {rc : Sys Int} (h : Neutral rc) :
    Neutral (do return [leInt (← rc)] : Sys (List Bytes)) := h.bind fun _ => .pure _

/-- **Every operation but the compound write.** -/
theorem stage2_keeps {op : Op} {req : Request} {name real real2 : Path} {answer : Sys (List Bytes)}
    (hwrite : op ≠ .cmptWrite) (h : stage2 fnmatch op req name real real2 = some answer)
    (hL : Accounted L t) : Dialogue.Keeps descriptors (Leaves op req L t) L (answer t) := by
  cases op with
  | cmptWrite => exact absurd rfl hwrite
  -- the operations that hand a handle out
  | «open» =>
      cases h
      rw [bind_apply, Dialogue.keeps_bind]
      refine (fsHandleOpen_keeps (Op.closesFile .open req) (Op.closesFind .open req) hL _ _).mono fun L' r hr => ?_
      obtain ⟨hstep, hhandles, hopens, hsmall⟩ := hr
      exact ⟨hstep, hhandles, fun _ => ⟨r.1, [], rfl, fits_result _, hsmall, hopens⟩, nofun⟩
  | openEx =>
      cases h
      rw [bind_apply, Dialogue.keeps_bind]
      refine (fsHandleOpen_keeps (Op.closesFile .openEx req) (Op.closesFind .openEx req) hL _ _).mono fun L' r hr => ?_
      obtain ⟨hstep, hhandles, hopens, hsmall⟩ := hr
      exact ⟨hstep, hhandles, fun _ => ⟨r.1, [openExEcho req], rfl,
        fits_data (openExEcho_length_le req), hsmall, hopens⟩, nofun⟩
  | findFirst =>
      cases h
      rw [bind_apply, Dialogue.keeps_bind]
      refine (fsFindOpen_keeps (Op.closesFile .findFirst req) (Op.closesFind .findFirst req) hL _ _).mono fun L' r hr => ?_
      obtain ⟨hstep, hhandles, hsearches, hsmall⟩ := hr
      refine ⟨hstep, hhandles, ?_, fun _ => ⟨r.1, [], rfl, fits_result _, hsmall, hsearches⟩⟩
      rintro (h | h)
      · cases h
      · cases h
  -- the operations that take one away
  | close =>
      obtain ⟨seg, hseg, h⟩ := Option.bind_eq_some_iff.mp h
      cases h
      rw [bind_apply, Dialogue.keeps_bind]
      refine (fsHandleClose_keeps (Op.closesFile .close req) (Op.closesFind .close req) hL fun i hi => ⟨seg, hseg, hi⟩).mono fun L' r hr => ?_
      exact ⟨hr.1, hr.2, hands_nothing rfl _ _ _ _⟩
  | closeAll | closeAll2 =>
      cases h
      simp only [bind_assoc, pure_bind]
      rw [bind_apply, Dialogue.keeps_bind]
      refine (closeAllLoop_keeps (fun _ => True) (fun _ => False) hL (fun _ => trivial) _).mono fun L' r hr => ?_
      exact ⟨hr.1, hr.2, hands_nothing rfl _ _ _ _⟩
  | findClose =>
      obtain ⟨seg, hseg, h⟩ := Option.bind_eq_some_iff.mp h
      cases h
      rw [bind_apply, Dialogue.keeps_bind]
      refine (fsFindClose_keeps (Op.closesFile .findClose req) (Op.closesFind .findClose req) hL fun i hi => ⟨seg, hseg, hi⟩).mono fun L' r hr => ?_
      exact ⟨hr.1, hr.2, hands_nothing rfl _ _ _ _⟩
  -- the operations that use one, and leave the tables as they are
  | findNext =>
      obtain ⟨seg, -, h⟩ := Option.bind_eq_some_iff.mp h
      cases h
      unfold caseFindNext
      rw [bind_apply, Dialogue.keeps_bind]
      refine (fsFindNext_keeps (Op.closesFile .findNext req) (Op.closesFind .findNext req) hL _ _).mono fun L' r hr => ?_
      obtain ⟨found, t'⟩ := r
      cases found with
      | none => exact ⟨hr.1, hr.2, hands_nothing rfl _ _ _ _⟩
      | some name => exact ⟨hr.1, hr.2, hands_nothing rfl _ _ _ _⟩
  | seek =>
      obtain ⟨h', -, h⟩ := Option.bind_eq_some_iff.mp h
      obtain ⟨off, -, h⟩ := Option.bind_eq_some_iff.mp h
      obtain ⟨whence, -, h⟩ := Option.bind_eq_some_iff.mp h
      cases h
      unfold caseSeek
      simp only [bind_assoc]
      rw [bind_apply, Dialogue.keeps_bind]
      refine (fsHandleSeek_keeps hL _ _ _).mono fun L' r hr => ?_
      obtain ⟨done, t'⟩ := r
      cases done with
      | none => exact Same.leaves hr hL rfl
      | some value => exact Same.leaves hr hL rfl
  | read =>
      obtain ⟨h', -, h⟩ := Option.bind_eq_some_iff.mp h
      obtain ⟨want, -, h⟩ := Option.bind_eq_some_iff.mp h
      cases h
      unfold caseRead
      rw [bind_apply, Dialogue.keeps_bind]
      refine (fsHandleRead_keeps hL _ _).mono fun L' r hr => ?_
      obtain ⟨done, t'⟩ := r
      cases done with
      | none => exact Same.leaves hr hL rfl
      | some value => exact Same.leaves hr hL rfl
  | write =>
      obtain ⟨bytes, -, h⟩ := Option.bind_eq_some_iff.mp h
      obtain ⟨h', -, h⟩ := Option.bind_eq_some_iff.mp h
      cases h
      unfold caseWrite
      rw [bind_apply, Dialogue.keeps_bind]
      refine (fsHandleWrite_keeps hL _ _).mono fun L' r hr => ?_
      obtain ⟨done, t'⟩ := r
      cases done with
      | none => exact Same.leaves hr hL rfl
      | some value => exact Same.leaves hr hL rfl
  -- the operations on paths, which open nothing that they do not close
  | getAttributes =>
      cases h
      refine (neutral_result (.call rfl fun answer => ?_)).leaves hL rfl
      split
      · exact .pure _
      · exact .call rfl fun _ => .pure _
  | createDir | removeDir | delete | rename | move =>
      cases h
      exact (neutral_result (caseCall_neutral (neutral_perform rfl) _)).leaves hL rfl
  | xdelete =>
      cases h
      exact (neutral_result (fsRmRecursive_neutral _ _)).leaves hL rfl
  | getFileSize =>
      cases h
      refine Neutral.leaves (.call rfl fun answer => ?_) hL rfl
      split
      · exact .pure _
      · exact .pure _
  | getFolderSize =>
      cases h
      exact (neutral_result ((fsFolderSize_neutral _ _).bind fun _ => .pure _)).leaves hL rfl
  | count =>
      cases h
      exact (neutral_result ((fsDirCount_neutral _).bind fun _ => .pure _)).leaves hL rfl
  | getClusterSize =>
      cases h
      refine (neutral_result ?_).leaves hL rfl
      unfold caseGetClusterSize
      split
      · exact .pure _
      refine .call rfl fun answer => ?_
      split
      · exact .pure _
      · exact .pure _
  | getFileDetail =>
      cases h
      refine Neutral.leaves (.call rfl fun answer => ?_) hL rfl
      split
      · exact .pure _
      · exact .call rfl fun _ => .pure _
  | getDiskInfo =>
      cases h
      refine Neutral.leaves (.call rfl fun answer => ?_) hL rfl
      split
      · exact .pure _
      · exact .pure _
  | cmptRead =>
      obtain ⟨seg, -, h⟩ := Option.bind_eq_some_iff.mp h
      cases h
      exact Neutral.leaves ((handleCmptRead_neutral _ _).bind fun _ => .pure _) hL rfl
  -- the fixed answers
  | restore | getDrive | otpQueryLength | otpRead | otpWrite | otpLock | lf | cdf | sdf | uk
  | binRegion =>
      cases h
      exact (neutral_result (.pure _)).leaves hL rfl

/-! ### One datagram -/

theorem signed_leInt {h : Int} (hsmall : Small h) : signed (word (leInt h) 0) = h := by
  have hword : word (leInt h ++ []) 0 = (h % 0x100000000).toNat := word_le32 (by omega) []
  rw [List.append_nil] at hword
  rw [hword]
  unfold Small at hsmall
  unfold signed
  split
  · omega
  · omega

/-- The number that a reply returns. -/
theorem returned_buildResp (hdr : Header) {opId : Nat} (hop : opId < 0x100000000) {h : Int}
    {rest : List Bytes} (hfits : Fits (leInt h :: rest)) (hsmall : Small h) :
    returned (some (buildResp hdr opId (leInt h :: rest))) = some h := by
  show (fsParseReq ((buildResp hdr opId (leInt h :: rest)).drop headerSize)).bind _ = _
  rw [(buildResp_complete hdr hop hfits).segments]
  show some (signed (word (leInt h) 0)) = some h
  rw [signed_leInt hsmall]

/-- **What is left behind a datagram.** -/
structure Serves (datagram : Bytes) (L : Ledger) (t : Tables) (L' : Ledger)
    (r : Option Bytes × Tables) : Prop where
  step : Step (closesFile datagram) (closesFind datagram) L t L' r.2
  handles : compoundWrite datagram = none → r.2.handles = t.handles
  opens : ∀ op req, dispatched datagram = some (op, req) → op = .open ∨ op = .openEx →
    ∀ h, returned r.1 = some h → Opens L h L' r.2
  searches : ∀ op req, dispatched datagram = some (op, req) → op = .findFirst →
    ∀ h, returned r.1 = some h → Searches L h L' r.2

/-- A datagram without a request. -/
theorem Step.serves {datagram : Bytes} (hnone : dispatched datagram = none) {L' : Ledger}
    {r : Option Bytes × Tables} (h : Step (closesFile datagram) (closesFind datagram) L t L' r.2)
    (hhandles : compoundWrite datagram = none → r.2.handles = t.handles) :
    Serves datagram L t L' r := by
  refine ⟨h, hhandles, ?_, ?_⟩
  · intro op req hreq
    rw [hnone] at hreq
    cases hreq
  · intro op req hreq
    rw [hnone] at hreq
    cases hreq

/-- A request that is refused. -/
theorem refused_serves {datagram : Bytes} (hL : Accounted L t) (hdr : Header) {opId : Nat}
    (hop : opId < 0x100000000) {rc : Int} (hrc : -100 ≤ rc ∧ rc ≤ 0) :
    Serves datagram L t L (some (buildResultResp hdr opId rc), t) := by
  have hsmall : Small rc := by
    unfold Small
    omega
  have hreturned : returned (some (buildResultResp hdr opId rc)) = some rc :=
    returned_buildResp hdr hop (fits_result rc) hsmall
  refine ⟨(Same.refl L t).step hL, fun _ => rfl, ?_, ?_⟩
  · rintro op req - - h hh hpos
    rw [hreturned] at hh
    cases hh
    omega
  · rintro op req - - h hh hpos
    rw [hreturned] at hh
    cases hh
    omega

theorem Step.mono {file file' : Fin fsHandleMax → Prop} {find find' : Fin fsFindMax → Prop}
    {L' : Ledger} {t' : Tables} (h : Step file find L t L' t') (hfile : ∀ i, file i → file' i)
    (hfind : ∀ i, find i → find' i) : Step file' find' L t L' t' :=
  ⟨h.accounted, fun hi hkept => h.files hi fun hclosed => hkept (hfile _ hclosed),
    fun hi hkept => h.finds hi fun hclosed => hkept (hfind _ hclosed), h.next⟩

theorem stage1_refused_le {op : Op} {req : Request} {rc : Int} (h : stage1 op req = .refused rc) :
    -100 ≤ rc ∧ rc ≤ 0 := by
  rcases stage1_refused h with ⟨rfl, -⟩ | rfl
  · decide
  · decide

/-- The answers to a request come back as they are. -/
theorem Leaves.serves {datagram : Bytes} {op : Op} {req : Request} {L' : Ledger}
    {r : List Bytes × Tables} (h : Leaves op req L t L' r)
    (hreq : dispatched datagram = some (op, req)) (hdr : Header) {opId : Nat}
    (hop : opId < 0x100000000) : Serves datagram L t L' (some (buildResp hdr opId r.1), r.2) := by
  obtain ⟨segs, t'⟩ := r
  refine ⟨h.step.mono ?_ ?_, fun _ => h.handles, ?_, ?_⟩
  · exact fun i hi => ⟨op, req, hreq, hi⟩
  · exact fun i hi => ⟨op, req, hreq, hi⟩
  · intro op' req' hreq' hopen result hresult
    rw [hreq] at hreq'
    cases hreq'
    obtain ⟨handle, rest, rfl, hfits, hsmall, hopens⟩ := h.hands.1 hopen
    rw [returned_buildResp hdr hop hfits hsmall] at hresult
    cases hresult
    exact hopens
  · intro op' req' hreq' hfind result hresult
    rw [hreq] at hreq'
    cases hreq'
    obtain ⟨handle, rest, rfl, hfits, hsmall, hsearches⟩ := h.hands.2 hfind
    rw [returned_buildResp hdr hop hfits hsmall] at hresult
    cases hresult
    exact hsearches

/-- A request that is dispatched. -/
theorem dispatch_keeps {datagram : Bytes} {op : Op} {req : Request}
    (hreq : dispatched datagram = some (op, req)) (hop : req.opId < 0x100000000)
    (hL : Accounted L t) (hdr : Header) :
    Dialogue.Keeps descriptors (Serves datagram L t) L
      ((do return some (← dispatch fnmatch hdr op req) : Sys (Option Bytes)) t) := by
  unfold dispatch
  cases hstage : stage1 op req with
  | unusable => exact refused_serves hL hdr hop (by decide)
  | refused rc => exact refused_serves hL hdr hop (stage1_refused_le hstage)
  | found name real real2 =>
      dsimp only
      cases hanswer : stage2 fnmatch op req name real real2 with
      | none => exact refused_serves hL hdr hop (by decide)
      | some answer =>
          simp only [bind_assoc, pure_bind]
          rw [bind_apply, Dialogue.keeps_bind]
          -- Only the compound write can open, and not say so in its reply.
          by_cases hcmpt : op = .cmptWrite
          · subst hcmpt
            obtain ⟨seg, hseg, hanswer⟩ := Option.bind_eq_some_iff.mp hanswer
            cases hanswer
            simp only [bind_assoc, pure_bind]
            rw [bind_apply, Dialogue.keeps_bind]
            refine (handleCmptWrite_keeps (closesFile datagram) (closesFind datagram) hL _ _).mono
              fun L' r hr => ⟨hr, ?_, ?_, ?_⟩
            · intro hnone
              -- The request is one, so it is not true that there is none.
              unfold compoundWrite at hnone
              obtain ⟨-, hwrite, -⟩ := dispatched_some_iff.mp hreq
              rw [hwrite, Bool.and_false, if_neg Bool.false_ne_true, hreq] at hnone
              simp only [hstage, hseg] at hnone
              cases hnone
            · intro op' req' hreq' hopen
              rw [hreq] at hreq'
              cases hreq'
              rcases hopen with h | h
              · cases h
              · cases h
            · intro op' req' hreq' hfind
              rw [hreq] at hreq'
              cases hreq'
              cases hfind
          · exact (stage2_keeps hcmpt hanswer hL).mono fun L' r hr => hr.serves hreq hdr hop

/-- **Every datagram.** -/
theorem serve_keeps (hL : Accounted L t) (datagram : Bytes) :
    Dialogue.Keeps descriptors (Serves datagram L t) L (serve fnmatch datagram t) := by
  -- The cases are those of `serve`, in its order.
  cases hdrop : dropped datagram with
  | true =>
      rw [serve_dropped hdrop]
      have hnone : dispatched datagram = none := dispatched_none (by rw [hdrop]; rfl)
      exact Step.serves hnone ((Same.refl L t).step hL) fun _ => rfl
  | false =>
      rw [serve_kept hdrop]
      dsimp only
      cases hwrite : sniffsWrite (datagram.drop headerSize) with
      | true =>
          have hnone : dispatched datagram = none := dispatched_none (by rw [hdrop, hwrite]; rfl)
          rw [if_pos rfl, bind_apply, Dialogue.keeps_bind]
          refine (handleCmptWrite_keeps (closesFile datagram) (closesFind datagram) hL _ _).mono
            fun L' r hr => Step.serves hnone hr fun hcmpt => ?_
          -- A write that is only sniffed is none that has been parsed.
          unfold compoundWrite at hcmpt
          rw [hdrop, hwrite] at hcmpt
          cases hcmpt
      | false =>
          rw [if_neg Bool.false_ne_true]
          cases hread : sniffsRead (datagram.drop headerSize) with
          | true =>
              have hnone : dispatched datagram = none :=
                dispatched_none (by rw [hdrop, hwrite, hread]; rfl)
              rw [if_pos rfl, bind_apply, Dialogue.keeps_bind]
              -- A compound read hands no descriptor out.
              have hneutral : Neutral (caseCmptRead
                  (.ofBytes ((datagram.drop headerSize).drop 0x30)) unknownFile) :=
                (handleCmptRead_neutral _ _).bind fun _ => .pure _
              refine (hneutral L t).mono fun L' r hr => Step.serves hnone (hr.step hL) fun _ => ?_
              show r.2.handles = t.handles
              rw [hr.tables]
          | false =>
              rw [if_neg Bool.false_ne_true]
              cases hparsed : fsParseReq (datagram.drop headerSize) with
              | none => exact refused_serves hL _ (requestOp_lt _) (by decide)
              | some req =>
                  have hop : req.opId < 0x100000000 := by
                    rw [parsed_requestOp hparsed]
                    exact requestOp_lt _
                  dsimp only
                  cases hknown : Op.ofId req.opId with
                  | none => exact refused_serves hL _ hop (by decide)
                  | some op =>
                      have hreq := dispatched_some_iff.mpr ⟨hdrop, hwrite, hread, hparsed, hknown⟩
                      -- A request with a known operation is dispatched.
                      exact dispatch_keeps hreq hop hL _

/-- **A datagram whose compound write comes to its closing leaves no entry of one.** -/
theorem serve_reaches {datagram : Bytes} {cw : CmptWriteReq}
    (hcw : compoundWrite datagram = some cw) (hempty : ∀ i, t.handles i = none) :
    Dialogue.Keeps (reaching cw) (fun _ r => ∀ i, r.2.handles i = none) ()
      (serve fnmatch datagram t) := by
  unfold compoundWrite at hcw
  split at hcw
  · rename_i hwrite
    rw [Bool.and_eq_true, Bool.not_eq_true'] at hwrite
    cases hcw
    rw [serve_kept hwrite.1]
    dsimp only
    rw [if_pos hwrite.2, bind_apply, Dialogue.keeps_bind]
    exact handleCmptWrite_reaches hempty _ _
  · split at hcw
    · rename_i req hreq
      split at hcw
      · rename_i name real real2 hstage
        obtain ⟨seg, hseg, rfl⟩ := Option.map_eq_some_iff.mp hcw
        obtain ⟨hdrop, hwrite, hread, hparsed, hknown⟩ := dispatched_some_iff.mp hreq
        have hanswer : stage2 fnmatch .cmptWrite req name real real2 =
            result (do return (← handleCmptWrite (.ofBytes seg) real).1) := by
          show (req.segOf 1 cmptWriteSize).bind _ = _
          rw [hseg]
          rfl
        rw [serve_kept hdrop]
        dsimp only
        rw [if_neg (by rw [hwrite]; decide), if_neg (by rw [hread]; decide), hparsed]
        dsimp only
        rw [hknown]
        dsimp only [dispatch]
        rw [hstage]
        dsimp only
        rw [hanswer]
        simp only [result, bind_assoc, pure_bind]
        rw [bind_apply, Dialogue.keeps_bind]
        exact handleCmptWrite_reaches hempty _ _
      · cases hcw
    · cases hcw

end Requests

/-! ### Runs -/

/-- A datagram, the calls made for it with their answers, and the reply. -/
structure Turn where
  datagram : Bytes
  entries : List (Sigma Answer)
  reply : Option Bytes

/-- **A run of the loop**, with any datagrams and any answers of the file system. -/
inductive Run (fnmatch : Path → Path → Bool) : Tables → List Turn → Tables → Prop
  | nil (t : Tables) : Run fnmatch t [] t
  | cons {t t' t'' : Tables} {turn : Turn} {rest : List Turn}
      (hturn : (serve fnmatch turn.datagram t).Path turn.entries (turn.reply, t'))
      (hrest : Run fnmatch t' rest t'') : Run fnmatch t (turn :: rest) t''

/-- All calls of a run. -/
def transcript (turns : List Turn) : List (Sigma Answer) := turns.flatMap (·.entries)

/-- What is open behind a run from the start of the service. -/
def ledgerOf (turns : List Turn) : Ledger := descriptors.account .init (transcript turns)

/-- **The condition**: a compound write that opens a file comes to its closing. -/
def Turn.Reaches (turn : Turn) : Prop :=
  ∀ cw, compoundWrite turn.datagram = some cw → cw.fileHandle < 0 →
    ∀ entry ∈ turn.entries, cw.Reaches entry.1 entry.2

/-- The reply to a compound write hands out the entry of the descriptor that it has opened. -/
def Turn.Reports (turn : Turn) (i : Fin maxOpenHandles) (fd : Nat) : Prop :=
  compoundWrite turn.datagram ≠ none ∧
    (∃ file flags, (⟨.open file flags, .ok fd⟩ : Sigma Answer) ∈ turn.entries) ∧
    ∃ reply resp, turn.reply = some reply ∧ fsParseReq (reply.drop headerSize) = some resp ∧
      leInt (i.val + 1) ∈ resp.segs

section Runs

variable {fnmatch : Path → Path → Bool} {L : Ledger} {t t' : Tables} {turns : List Turn}

theorem transcript_append (xs ys : List Turn) :
    transcript (xs ++ ys) = transcript xs ++ transcript ys := List.flatMap_append

theorem ledgerOf_append (xs ys : List Turn) :
    ledgerOf (xs ++ ys) = descriptors.account (ledgerOf xs) (transcript ys) := by
  unfold ledgerOf
  rw [transcript_append, Contract.account_append]

/-- **What one turn does.** -/
theorem turn_serves {turn : Turn}
    (hturn : (serve fnmatch turn.datagram t).Path turn.entries (turn.reply, t'))
    (hL : Accounted L t) (hfresh : descriptors.Honours L turn.entries) :
    descriptors.Obeys L turn.entries ∧
      Serves turn.datagram L t (descriptors.account L turn.entries) (turn.reply, t') :=
  (serve_keeps hL turn.datagram).obeys hturn hfresh

/-- **What a run does.** -/
theorem Run.keeps (h : Run fnmatch t turns t') (hL : Accounted L t)
    (hfresh : descriptors.Honours L (transcript turns)) :
    descriptors.Obeys L (transcript turns) ∧
      Step (fun i => ∃ turn ∈ turns, closesFile turn.datagram i)
        (fun i => ∃ turn ∈ turns, closesFind turn.datagram i) L t
        (descriptors.account L (transcript turns)) t' := by
  induction h generalizing L with
  | nil t => exact ⟨trivial, (Same.refl L t).step hL⟩
  | @cons t t' t'' turn rest hturn hrest ih =>
      have hsplit : transcript (turn :: rest) = turn.entries ++ transcript rest :=
        List.flatMap_cons
      rw [hsplit, Contract.honours_append] at hfresh
      obtain ⟨hobeys, hserves⟩ := turn_serves hturn hL hfresh.1
      obtain ⟨hobeys', hstep⟩ := ih hserves.step.accounted hfresh.2
      rw [hsplit, Contract.obeys_append, Contract.account_append]
      refine ⟨⟨hobeys, hobeys'⟩, ?_⟩
      have hfirst : Step (fun i => ∃ later ∈ turn :: rest, closesFile later.datagram i)
          (fun i => ∃ later ∈ turn :: rest, closesFind later.datagram i) L t _ t' :=
        hserves.step.mono (fun i hi => ⟨turn, List.mem_cons_self, hi⟩)
          fun i hi => ⟨turn, List.mem_cons_self, hi⟩
      refine hfirst.trans (hstep.mono ?_ ?_)
      · rintro i ⟨later, hlater, hi⟩
        exact ⟨later, List.mem_cons_of_mem _ hlater, hi⟩
      · rintro i ⟨later, hlater, hi⟩
        exact ⟨later, List.mem_cons_of_mem _ hlater, hi⟩

/-- The answers of a turn keep the assumption on compound writes. -/
theorem reaching_honours {cw : CmptWriteReq} {entries : List (Sigma Answer)}
    (h : cw.fileHandle < 0 → ∀ entry ∈ entries, cw.Reaches entry.1 entry.2) :
    (reaching cw).Honours () entries := by
  induction entries with
  | nil => trivial
  | cons entry rest ih =>
      refine ⟨fun hnew => h hnew entry List.mem_cons_self, ih fun hnew entry hentry => ?_⟩
      exact h hnew entry (List.mem_cons_of_mem _ hentry)

/-- **A run whose compound writes come to their closing leaves no entry of one.** -/
theorem Run.reaches (h : Run fnmatch t turns t') (hL : Accounted L t)
    (hfresh : descriptors.Honours L (transcript turns)) (hreaches : ∀ turn ∈ turns, turn.Reaches)
    (hempty : ∀ i, t.handles i = none) : ∀ i, t'.handles i = none := by
  induction h generalizing L with
  | nil t => exact hempty
  | @cons t t' t'' turn rest hturn hrest ih =>
      have hsplit : transcript (turn :: rest) = turn.entries ++ transcript rest :=
        List.flatMap_cons
      rw [hsplit, Contract.honours_append] at hfresh
      obtain ⟨-, hserves⟩ := turn_serves hturn hL hfresh.1
      refine ih hserves.step.accounted hfresh.2
        (fun later hlater => hreaches later (List.mem_cons_of_mem _ hlater)) ?_
      cases hcw : compoundWrite turn.datagram with
      | none =>
          have hsame : t'.handles = t.handles := hserves.handles hcw
          rw [hsame]
          exact hempty
      | some cw =>
          have hturnReaches := hreaches turn List.mem_cons_self cw hcw
          exact ((serve_reaches hcw hempty).obeys hturn (reaching_honours hturnReaches)).2

theorem Run.append {xs ys : List Turn} (h : Run fnmatch t (xs ++ ys) t') :
    ∃ m, Run fnmatch t xs m ∧ Run fnmatch m ys t' := by
  induction xs generalizing t with
  | nil => exact ⟨t, .nil t, h⟩
  | cons turn rest ih =>
      cases h with
      | cons hturn hrest =>
          obtain ⟨m, hxs, hys⟩ := ih hrest
          exact ⟨m, .cons hturn hxs, hys⟩

theorem accounted_init : Accounted .init .init := by
  refine ⟨⟨fun fd => ⟨fun h => absurd rfl h, ?_⟩, ?_⟩, ⟨fun id => ⟨fun h => absurd rfl h, ?_⟩, ?_⟩⟩
  · rintro ⟨i | i, hi⟩
    · cases hi
    · cases hi
  · rintro (i | i) j fd hi
    · cases hi
    · cases hi
  · rintro ⟨i, hi⟩
    cases hi
  · intro i j id hi
    cases hi

end Runs

/-- **What is kept over a run** from the start of the service. -/
structure WellKept (fnmatch : Path → Path → Bool) (turns : List Turn) (t : Tables) : Prop where
  /-- What is open is what the tables record, each in one entry. -/
  accounted : Accounted (ledgerOf turns) t
  /-- Nothing was used or closed that was not open. -/
  closedOnce : descriptors.Obeys .init (transcript turns)
  /-- The handle that an `Open` has handed out designates what it has opened, until a request
  closes the handle. -/
  files : ∀ {before turn later t₁ op req h}, turns = before ++ [turn] ++ later →
    Run fnmatch .init (before ++ [turn]) t₁ → Run fnmatch t₁ later t →
    dispatched turn.datagram = some (op, req) → op = .open ∨ op = .openEx →
    returned turn.reply = some h → 0 < h →
    ∃ i : Fin fsHandleMax, ∃ o, h = i.val ∧ (ledgerOf before).next ≤ o ∧
      t₁.fileOf (ledgerOf (before ++ [turn])) i = some o ∧
      ((∀ next ∈ later, ¬ closesFile next.datagram i) → t.fileOf (ledgerOf turns) i = some o)
  /-- The same for `FindFirst`. -/
  finds : ∀ {before turn later t₁ op req h}, turns = before ++ [turn] ++ later →
    Run fnmatch .init (before ++ [turn]) t₁ → Run fnmatch t₁ later t →
    dispatched turn.datagram = some (op, req) → op = .findFirst →
    returned turn.reply = some h → 0 < h →
    ∃ i : Fin fsFindMax, ∃ o, h = i.val ∧ (ledgerOf before).next ≤ o ∧
      t₁.findOf (ledgerOf (before ++ [turn])) i = some o ∧
      ((∀ next ∈ later, ¬ closesFind next.datagram i) → t.findOf (ledgerOf turns) i = some o)
  /-- The entry that a compound write has left was handed out. -/
  reported : ∀ {i fd}, t.handles i = some fd → ∃ turn ∈ turns, turn.Reports i fd
  /-- There is room for another compound write. -/
  spare : ∃ i, t.handles i = none

section Kept

variable {fnmatch : Path → Path → Bool} {t : Tables} {turns : List Turn}

/-- The turn in the middle of a run, with what is open in front of it. -/
theorem Run.turn {before later : List Turn} {turn : Turn} {t₁ : Tables}
    (hrun : Run fnmatch .init (before ++ [turn]) t₁)
    (hfresh : descriptors.Honours .init (transcript (before ++ [turn] ++ later))) :
    (∃ t₀, Serves turn.datagram (ledgerOf before) t₀ (ledgerOf (before ++ [turn]))
        (turn.reply, t₁)) ∧
      Accounted (ledgerOf (before ++ [turn])) t₁ ∧
      descriptors.Honours (ledgerOf (before ++ [turn])) (transcript later) := by
  rw [transcript_append, Contract.honours_append, transcript_append,
    Contract.honours_append] at hfresh
  obtain ⟨⟨hbefore, hturn⟩, hlater⟩ := hfresh
  obtain ⟨t₀, hfirst, hlast⟩ := hrun.append
  have hL₀ : Accounted (ledgerOf before) t₀ := (hfirst.keeps accounted_init hbefore).2.accounted
  cases hlast with
  | cons hpath hnil =>
      cases hnil
      have hentries : transcript [turn] = turn.entries := List.append_nil _
      rw [hentries] at hturn
      have hserves := (turn_serves hpath hL₀ hturn).2
      rw [← hentries, ← ledgerOf_append] at hserves
      refine ⟨⟨t₀, hserves⟩, hserves.step.accounted, ?_⟩
      unfold ledgerOf
      rw [transcript_append]
      exact hlater

/-- **The descriptors of the service are well kept** over every run in which the file system
hands out new descriptors and every compound write that opens a file comes to its closing. -/
theorem descriptors_wellKept (hrun : Run fnmatch .init turns t)
    (hfresh : descriptors.Honours .init (transcript turns))
    (hreaches : ∀ turn ∈ turns, turn.Reaches) : WellKept fnmatch turns t := by
  have hkeeps := hrun.keeps accounted_init hfresh
  have hempty := hrun.reaches accounted_init hfresh hreaches fun _ => rfl
  refine ⟨hkeeps.2.accounted, hkeeps.1, ?_, ?_, ?_, ?_⟩
  · rintro before turn later t₁ op req h rfl hfirst hlast hreq hop hreturned hpos
    obtain ⟨⟨t₀, hserves⟩, hL₁, hlater⟩ := hfirst.turn hfresh
    obtain ⟨i, o, hi, ho, hnew⟩ := hserves.opens op req hreq hop h hreturned hpos
    refine ⟨i, o, hi, hnew, ho, fun hopen => ?_⟩
    rw [ledgerOf_append]
    refine (hlast.keeps hL₁ hlater).2.files ho ?_
    rintro ⟨next, hnext, hcloses⟩
    exact hopen next hnext hcloses
  · rintro before turn later t₁ op req h rfl hfirst hlast hreq hop hreturned hpos
    obtain ⟨⟨t₀, hserves⟩, hL₁, hlater⟩ := hfirst.turn hfresh
    obtain ⟨i, o, hi, ho, hnew⟩ := hserves.searches op req hreq hop h hreturned hpos
    refine ⟨i, o, hi, hnew, ho, fun hopen => ?_⟩
    rw [ledgerOf_append]
    refine (hlast.keeps hL₁ hlater).2.finds ho ?_
    rintro ⟨next, hnext, hcloses⟩
    exact hopen next hnext hcloses
  · intro i fd hi
    rw [hempty i] at hi
    cases hi
  · exact ⟨⟨0, by decide⟩, hempty _⟩

end Kept

/-! ### A compound write without a closing -/

/-- The file system of `succeeds`, which hands out a new descriptor every time. -/
def handsOut : Dialogue.Environment Call Answer Nat := fun c next =>
  match c with
  | .open _ _ => (.ok next, next + 1)
  | .opendir _ => (.ok ⟨next, []⟩, next + 1)
  | c => ((succeeds c ()).1, next)

/-- What the service does with the datagrams, one behind the other. -/
def session : List Bytes → Nat → Tables → List Turn × Tables
  | [], _, t => ([], t)
  | datagram :: rest, next, t =>
      let out := Dialogue.record handsOut next (serve (fun _ _ => false) datagram t)
      let later := session rest out.2.2 out.2.1.2
      (⟨datagram, out.1, out.2.1.1⟩ :: later.1, later.2)

theorem session_run (datagrams : List Bytes) (next : Nat) (t : Tables) :
    Run (fun _ _ => false) t (session datagrams next t).1 (session datagrams next t).2 := by
  induction datagrams generalizing next t with
  | nil => exact .nil t
  | cons datagram rest ih => exact .cons (Dialogue.path_record handsOut next _) (ih _ _)

theorem handsOut_reaches {req : CmptWriteReq} (hcloses : req.opidMap.testBit 4 = true) (c : Call)
    (next : Nat) : req.Reaches c (handsOut c next).1 := by
  cases c with
  | «open» file flags => exact hcloses
  | _ => trivial

/-- Where every compound write has the bit `CLOSE`, it comes to its closing. -/
theorem session_reaches {datagrams : List Bytes}
    (hcloses : ∀ datagram ∈ datagrams, ∀ cw, compoundWrite datagram = some cw →
      cw.opidMap.testBit 4 = true) (next : Nat) (t : Tables) :
    ∀ turn ∈ (session datagrams next t).1, turn.Reaches := by
  induction datagrams generalizing next t with
  | nil => exact fun turn hturn => by cases hturn
  | cons datagram rest ih =>
      intro turn hturn
      rcases List.mem_cons.mp hturn with rfl | hturn
      · intro cw hcw _ entry hentry
        obtain ⟨w, hanswer⟩ := Dialogue.mem_record handsOut next _ hentry
        rw [hanswer]
        exact handsOut_reaches (hcloses datagram (List.mem_cons_self ..) cw hcw) entry.1 w
      · exact ih (fun other hother => hcloses other (List.mem_cons_of_mem _ hother)) _ _ turn hturn

/-- A compound write in the form without segments: a new file, to be written, with the bits
`bits` more. -/
def cmptWriteDatagram (bits : Nat) : Bytes :=
  datagramOf [0x21 + bits, 0, 0, 0, 0, 0, 0, 0, 0xffffffff, 0] []

/-- `Open` of the file `Z:\a`. -/
def openDatagram : Bytes := datagramOf [0x1001, 2, 10, 0x3a005a, 0x61005c, 0, 4, 0x100] []

/-- `FindFirst` of all files of `Z:\`. -/
def findDatagram : Bytes := datagramOf [0x1012, 2, 10, 0x3a005a, 0x2a005c, 0, 4, 0] []

/-- A file and a search are opened, and a compound write comes to its closing between them. -/
def closingSession : List Turn × Tables :=
  session [openDatagram, cmptWriteDatagram 0x10, findDatagram] 0 .init

/-- With the bit `CLOSE` nothing of the compound write is left; the handles of the file and of the
search designate what they were handed out for. -/
theorem descriptors_wellKept_closing :
    descriptors.Honours .init (transcript closingSession.1) ∧
      (∀ turn ∈ closingSession.1, turn.Reaches) ∧
      WellKept (fun _ _ => false) closingSession.1 closingSession.2 ∧
      closingSession.2.fileOf (ledgerOf closingSession.1) ⟨1, by decide⟩ = some 0 ∧
      closingSession.2.findOf (ledgerOf closingSession.1) ⟨1, by decide⟩ = some 2 ∧
      ∀ i, closingSession.2.handles i = none := by
  have hfresh : descriptors.Honours .init (transcript closingSession.1) :=
    ⟨rfl, rfl, trivial, trivial, rfl, trivial⟩
  have hcloses : ∀ datagram ∈ [openDatagram, cmptWriteDatagram 0x10, findDatagram], ∀ cw,
      compoundWrite datagram = some cw → cw.opidMap.testBit 4 = true := by
    decide +kernel
  have hreaches := session_reaches hcloses 0 .init
  exact ⟨hfresh, hreaches, descriptors_wellKept (session_run _ _ _) hfresh hreaches, rfl, rfl,
    by decide +kernel⟩

/-- Without it the descriptor stays, and the reply does not name its entry. -/
theorem descriptors_not_wellKept :
    ¬ ∀ (fnmatch : Path → Path → Bool) (turns : List Turn) (t : Tables),
      Run fnmatch .init turns t → descriptors.Honours .init (transcript turns) →
      WellKept fnmatch turns t := by
  intro hclaim
  have hfresh : descriptors.Honours .init (transcript (session [cmptWriteDatagram 0] 0 .init).1) :=
    ⟨rfl, trivial, trivial⟩
  have hkept := hclaim _ _ _ (session_run [cmptWriteDatagram 0] 0 .init) hfresh
  have hleft : (session [cmptWriteDatagram 0] 0 .init).2.handles ⟨0, by decide⟩ = some 0 := rfl
  obtain ⟨turn, hturn, -, -, reply, resp, hreply, hresp, hmem⟩ := hkept.reported hleft
  rw [show (session [cmptWriteDatagram 0] 0 .init).1 = [_] from rfl, List.mem_singleton] at hturn
  subst hturn
  dsimp only at hreply
  have hreplied : (Dialogue.record handsOut 0
      (serve (fun _ _ => false) (cmptWriteDatagram 0) .init)).2.1.1.bind
        (fun reply => fsParseReq (reply.drop headerSize)) =
      some ⟨0xffff0021, [[0, 0, 0, 0]]⟩ := by decide
  rw [hreply, Option.bind_some, hresp] at hreplied
  cases hreplied
  revert hmem
  decide

end Mindone.Fsd
