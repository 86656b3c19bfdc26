import Mathlib.Algebra.Ring.Nat
import Mindone.Lib.Program
import Mindone.Mux.Decoder

/-!
# Mindone.Mux.Transport

The queues, the turn budget and the poll epochs of `modem/mux/transport.rs`.

`ByteQueue` is a fixed buffer with a live window; `TransmitQueue` admits whole
frames to it and `PendingQueue` the remainders that an endpoint did not take.
`drain` offers the window to a writer until the writer or the turn budget stops
it. A writer is any function of what it is offered and of a world of its own.
-/

namespace Mindone.Mux.Transport

open Mindone.Lib

def txBytes : Nat := 65536
def rxBytes : Nat := 65536
def pendingBytes : Nat := 4096
def ptyReadBytes : Nat := 1024
def maxTurnCalls : Nat := 64
def maxTurnBytes : Nat := rxBytes

inductive Error
  | configuration
  | capacity
  | oversizedPayload
  | channel
  | invalidProgress
  | clockOverflow
  | descriptor
  | epochExhausted
  deriving DecidableEq

/-! ### Byte queues -/

/-- A buffer of `capacity` bytes whose live bytes are the window `[start, stop)`,
which stays below `limit`. -/
structure ByteQueue (capacity : Nat) where
  bytes : List UInt8
  start : Nat
  stop : Nat
  limit : Nat
  bytes_length : bytes.length = capacity
  start_le : start ≤ stop
  stop_le : stop ≤ limit
  limit_le : limit ≤ capacity

namespace ByteQueue

variable {capacity : Nat}

theorem zeros_length : (List.replicate capacity (0 : UInt8)).length = capacity := List.length_replicate

theorem empty_le : (0 : Nat) ≤ 0 := Nat.le_refl 0

def new (limit : Nat) : Except Error (ByteQueue capacity) :=
  if h : limit = 0 ∨ limit > capacity then .error .configuration
  else .ok
    { bytes := List.replicate capacity 0
      start := 0
      stop := 0
      limit
      bytes_length := zeros_length
      start_le := empty_le
      stop_le := Nat.zero_le _
      limit_le := by omega }

def pending (q : ByteQueue capacity) : List UInt8 := slice q.bytes q.start q.stop

def available (q : ByteQueue capacity) : Nat := q.limit - q.pending.length

theorem stop_le_length (q : ByteQueue capacity) : q.stop ≤ q.bytes.length := by
  rw [q.bytes_length]
  exact Nat.le_trans q.stop_le q.limit_le

theorem pending_length (q : ByteQueue capacity) : q.pending.length = q.stop - q.start :=
  slice_length q.stop_le_length

def compact (q : ByteQueue capacity) : ByteQueue capacity :=
  { q with
    bytes := copyToFront q.bytes q.start q.stop
    start := 0
    stop := q.stop - q.start
    bytes_length := by rw [copyToFront_length q.start_le q.stop_le_length, q.bytes_length]
    start_le := Nat.zero_le _
    stop_le := Nat.le_trans (Nat.sub_le _ _) q.stop_le }

@[simp] theorem compact_pending (q : ByteQueue capacity) : q.compact.pending = q.pending :=
  slice_copyToFront q.stop_le_length

@[simp] theorem compact_limit (q : ByteQueue capacity) : q.compact.limit = q.limit := rfl

@[simp] theorem compact_available (q : ByteQueue capacity) : q.compact.available = q.available := by
  rw [available, compact_pending, compact_limit, available]

/-- Room behind a compacted window. -/
theorem compact_stop_add {q : ByteQueue capacity} {n : Nat} (h : n ≤ q.available) :
    q.compact.stop + n ≤ q.compact.limit := by
  have hlen := q.pending_length
  have hstop := q.stop_le
  simp only [available] at h
  simp only [compact]
  omega

/-- The queue with its cells from `stop` on replaced and `n` of them live. -/
def extend (q : ByteQueue capacity) (output : List UInt8) (n : Nat)
    (houtput : q.stop + output.length ≤ q.bytes.length) (hn : q.stop + n ≤ q.limit) :
    ByteQueue capacity :=
  { q with
    bytes := blit q.bytes q.stop output
    stop := q.stop + n
    bytes_length := by rw [blit_length houtput, q.bytes_length]
    start_le := Nat.le_trans q.start_le (Nat.le_add_right _ _)
    stop_le := hn }

def append (q : ByteQueue capacity) (input : List UInt8) : Except Error (ByteQueue capacity) :=
  if h : input.length > q.available then .error .capacity
  else
    have hroom : q.compact.stop + input.length ≤ q.compact.limit :=
      compact_stop_add (Nat.le_of_not_lt h)
    .ok (q.compact.extend input input.length
      (by rw [q.compact.bytes_length]; exact Nat.le_trans hroom q.limit_le) hroom)

def acceptWritten (q : ByteQueue capacity) (bytes : Nat) : Except Error (ByteQueue capacity) :=
  if h : bytes > q.pending.length then .error .invalidProgress
  else if q.start + bytes = q.stop then
    .ok { q with
      start := 0
      stop := 0
      start_le := empty_le
      stop_le := Nat.zero_le _ }
  else
    .ok { q with
      start := q.start + bytes
      start_le := by
        have hlen := q.pending_length
        have hle := q.start_le
        omega }

/-- Drop the live bytes; also returns how many they were. -/
def clear (q : ByteQueue capacity) : Nat × ByteQueue capacity :=
  (q.pending.length,
    { q with start := 0, stop := 0, start_le := empty_le, stop_le := Nat.zero_le _ })

/-! What the operations do to the live bytes. -/

theorem new_pending {limit : Nat} {q : ByteQueue capacity} (h : new limit = .ok q) :
    q.pending = [] ∧ q.limit = limit := by
  unfold new at h
  split at h
  · cases h
  · cases h
    exact ⟨slice_self _ _, rfl⟩

@[simp] theorem clear_pending (q : ByteQueue capacity) : q.clear.2.pending = [] := slice_self _ _

/-- The window grows by the live part of what is written behind it. -/
theorem extend_pending {q : ByteQueue capacity} {output live : List UInt8} {n : Nat}
    {houtput : q.stop + output.length ≤ q.bytes.length} {hn : q.stop + n ≤ q.limit}
    (hlive : output.take n = live) (hlen : live.length = n) :
    (q.extend output n houtput hn).pending = q.pending ++ live := by
  obtain ⟨rest, rfl⟩ : ∃ rest, output = live ++ rest :=
    ⟨output.drop n, by rw [← hlive, List.take_append_drop]⟩
  subst hlen
  have hsplit : blit q.bytes q.stop (live ++ rest) =
      blit (blit q.bytes q.stop live) (q.stop + live.length) rest := by
    rw [blit_blit]
    rw [List.length_append] at houtput
    omega
  have hinner : slice (blit (blit q.bytes q.stop live) (q.stop + live.length) rest) q.start
      (q.stop + live.length) = slice (blit q.bytes q.stop live) q.start (q.stop + live.length) := by
    have hblit : (blit q.bytes q.stop live).length = q.bytes.length := by
      refine blit_length ?_
      rw [List.length_append] at houtput
      omega
    have hprefix : ((blit q.bytes q.stop live).take (q.stop + live.length)).length =
        q.stop + live.length := by
      rw [List.length_take, hblit]
      rw [List.length_append] at houtput
      omega
    unfold slice
    conv_lhs => rw [blit, List.append_assoc, List.take_left' hprefix]
  show slice (blit q.bytes q.stop (live ++ rest)) q.start (q.stop + live.length) = _
  rw [hsplit, hinner, slice_blit q.start_le q.stop_le_length]
  rfl

theorem append_spec {q q' : ByteQueue capacity} {input : List UInt8}
    (h : q.append input = .ok q') : q'.pending = q.pending ++ input ∧ q'.limit = q.limit := by
  unfold append at h
  split at h
  · cases h
  · cases h
    refine ⟨?_, rfl⟩
    rw [extend_pending List.take_length rfl, compact_pending]

theorem append_isOk {q : ByteQueue capacity} {input : List UInt8}
    (h : input.length ≤ q.available) : ∃ q', q.append input = .ok q' := by
  unfold append
  rw [dif_neg (Nat.not_lt.mpr h)]
  exact ⟨_, rfl⟩

/-- The accepted bytes leave the front of the window. -/
theorem acceptWritten_spec {q q' : ByteQueue capacity} {bytes : Nat}
    (h : q.acceptWritten bytes = .ok q') :
    q'.pending = q.pending.drop bytes ∧ q'.limit = q.limit ∧ bytes ≤ q.pending.length := by
  unfold acceptWritten at h
  split at h
  · cases h
  · rename_i hle
    split at h
    · rename_i hall
      cases h
      refine ⟨?_, rfl, Nat.le_of_not_lt hle⟩
      have hempty : q.pending.drop bytes = [] := by rw [pending, slice_drop, hall, slice_self]
      rw [hempty]
      exact slice_self _ _
    · cases h
      exact ⟨(slice_drop _ _ _ _).symm, rfl, Nat.le_of_not_lt hle⟩

theorem acceptWritten_isOk {q : ByteQueue capacity} {bytes : Nat}
    (h : bytes ≤ q.pending.length) : ∃ q', q.acceptWritten bytes = .ok q' := by
  unfold acceptWritten
  rw [dif_neg (Nat.not_lt.mpr h)]
  split
  · exact ⟨_, rfl⟩
  · exact ⟨_, rfl⟩

end ByteQueue

/-! ### Devices and budgets -/

inductive Fault
  | interrupted
  | wouldBlock
  | busy
  | endOfStream
  | deviceReset
  | failure
  deriving DecidableEq

inductive IoResult
  | transferred (bytes : Nat)
  | fault (fault : Fault)
  deriving DecidableEq

/-- `trait ByteWriter`, over the writer's own world. -/
abbrev ByteWriter (ω : Type) := List UInt8 → ω → IoResult × ω

structure TurnBudget where
  callLimit : Nat
  byteLimit : Nat
  calls : Nat
  bytes : Nat
  calls_le : calls ≤ callLimit
  bytes_le : bytes ≤ byteLimit

namespace TurnBudget

def new (calls bytes : Nat) : Except Error TurnBudget :=
  if calls = 0 ∨ calls > maxTurnCalls ∨ bytes = 0 ∨ bytes > maxTurnBytes then
    .error .configuration
  else
    .ok
      { callLimit := calls
        byteLimit := bytes
        calls := 0
        bytes := 0
        calls_le := Nat.zero_le _
        bytes_le := Nat.zero_le _ }

def availableBytes (budget : TurnBudget) : Nat := budget.byteLimit - budget.bytes

def takeCall (budget : TurnBudget) : Option TurnBudget :=
  if h : budget.calls = budget.callLimit ∨ budget.bytes = budget.byteLimit then none
  else
    some
      { budget with
        calls := budget.calls + 1
        calls_le := by
          have hle := budget.calls_le
          omega }

/-- Count bytes that a call transferred. -/
def spend (budget : TurnBudget) (n : Nat) (h : n ≤ budget.availableBytes) : TurnBudget :=
  { budget with
    bytes := budget.bytes + n
    bytes_le := by
      have hle := budget.bytes_le
      simp only [availableBytes] at h
      omega }

/-- A call with every byte that is left reserved for it: how many these are, and the
budget meanwhile. -/
def permit (budget : TurnBudget) : Option (Nat × TurnBudget) :=
  budget.takeCall.map fun budget =>
    (budget.availableBytes, { budget with bytes := budget.byteLimit, bytes_le := Nat.le_refl _ })

/-- `IoPermit::complete`: give back the reserved bytes that were not transferred. -/
def complete (budget : TurnBudget) (maxBytes accepted : Nat) : Except Error TurnBudget :=
  if accepted > maxBytes then .error .invalidProgress
  else
    .ok
      { budget with
        bytes := budget.bytes - (maxBytes - accepted)
        bytes_le := Nat.le_trans (Nat.sub_le _ _) budget.bytes_le }

theorem takeCall_lt {budget budget' : TurnBudget} (h : budget.takeCall = some budget') :
    budget'.callLimit - budget'.calls < budget.callLimit - budget.calls := by
  unfold takeCall at h
  split at h
  · cases h
  · rename_i hroom
    cases h
    have hle := budget.calls_le
    show budget.callLimit - (budget.calls + 1) < budget.callLimit - budget.calls
    omega

end TurnBudget

inductive Stop
  | complete
  | yielded
  | blocked
  | endOfStream
  | deviceReset
  | failure
  | noProgress
  | invalidProgress
  | rejected
  | invalidBuffer
  deriving DecidableEq

structure TurnReport where
  stop : Stop
  calls : Nat
  bytes : Nat
  pending : Nat
  discarded : Nat
  frames : Nat
  deriving DecidableEq

/-- Where a loop over a queue stopped. -/
structure Drained (capacity : Nat) (ω : Type) where
  stop : Stop
  discarded : Nat
  queue : ByteQueue capacity
  world : ω
  budget : TurnBudget

section Drain

variable {capacity : Nat} {ω : Type}

/-- The loop of `drain`. -/
def drainLoop (writer : ByteWriter ω) (queue : ByteQueue capacity) (w : ω)
    (budget : TurnBudget) : Drained capacity ω :=
  if queue.pending = [] then ⟨.complete, 0, queue, w, budget⟩
  else
    match _hcall : budget.takeCall with
    | none => ⟨.yielded, 0, queue, w, budget⟩
    | some budget' =>
        let offered := min queue.pending.length budget'.availableBytes
        match writer (queue.pending.take offered) w with
        | (.transferred bytes, w) =>
            if bytes = 0 then ⟨.noProgress, 0, queue, w, budget'⟩
            else if hle : bytes > offered then ⟨.invalidProgress, 0, queue, w, budget'⟩
            else
              match queue.acceptWritten bytes with
              | .error _ => ⟨.invalidProgress, 0, queue, w, budget'⟩
              | .ok queue =>
                  drainLoop writer queue w (budget'.spend bytes
                    (Nat.le_trans (Nat.le_of_not_lt hle) (Nat.min_le_right _ _)))
        | (.fault .interrupted, w) => drainLoop writer queue w budget'
        | (.fault .wouldBlock, w) | (.fault .busy, w) => ⟨.blocked, 0, queue, w, budget'⟩
        | (.fault .deviceReset, w) =>
            ⟨.deviceReset, queue.clear.1, queue.clear.2, w, budget'⟩
        | (.fault .endOfStream, w) => ⟨.endOfStream, 0, queue, w, budget'⟩
        | (.fault .failure, w) => ⟨.failure, 0, queue, w, budget'⟩
termination_by budget.callLimit - budget.calls
decreasing_by
  · show budget'.callLimit - budget'.calls < budget.callLimit - budget.calls
    exact TurnBudget.takeCall_lt _hcall
  · exact TurnBudget.takeCall_lt _hcall

/-- `drain`: the loop, and its report. -/
def drain (writer : ByteWriter ω) (queue : ByteQueue capacity) (w : ω) (budget : TurnBudget) :
    TurnReport × Drained capacity ω :=
  let d := drainLoop writer queue w budget
  (⟨d.stop, d.budget.calls - budget.calls, d.budget.bytes - budget.bytes, d.queue.pending.length,
    d.discarded, 0⟩, d)

/-- A writer that also records the bytes it accepted: a count above what it was
offered accepts nothing. -/
def recording (writer : ByteWriter ω) : ByteWriter (ω × List UInt8) := fun input w =>
  let r := writer input w.1
  let accepted :=
    match r.1 with
    | .transferred bytes => if bytes ≤ input.length then input.take bytes else []
    | .fault _ => []
  (r.1, r.2, w.2 ++ accepted)

/-- What a loop over a queue did with the bytes that waited there: `taken` went to the
writer, `lost` was dropped by a device reset, and the rest still waits. -/
structure Drained.Spec (d : Drained capacity (ω × List UInt8)) (queue : ByteQueue capacity)
    (accepted taken lost : List UInt8) : Prop where
  accepted_eq : d.world.2 = accepted ++ taken
  pending_eq : queue.pending = taken ++ lost ++ d.queue.pending
  lost_length : lost.length = d.discarded
  limit_eq : d.queue.limit = queue.limit
  complete : d.stop = .complete → d.queue.pending = []
  stays : d.stop ≠ .complete → d.stop ≠ .deviceReset → d.queue.pending ≠ []
  lost_nil : d.stop ≠ .deviceReset → lost = []

/-- A stop that leaves the queue alone. -/
theorem Drained.Spec.stopped {stop : Stop} {queue : ByteQueue capacity}
    {w : ω × List UInt8} {budget : TurnBudget} {accepted : List UInt8} (hw : w.2 = accepted)
    (hcomplete : stop = .complete → queue.pending = [])
    (hstays : stop ≠ .complete → queue.pending ≠ []) :
    Spec ⟨stop, 0, queue, w, budget⟩ queue accepted [] [] where
  accepted_eq := by simpa using hw
  pending_eq := rfl
  lost_length := rfl
  limit_eq := rfl
  complete := hcomplete
  stays := fun hstop _ => hstays hstop
  lost_nil := fun _ => rfl

section Recording

variable {writer : ByteWriter ω} {input : List UInt8} {w w' : ω × List UInt8}

theorem recording_fault {fault : Fault} (h : recording writer input w = (.fault fault, w')) :
    w'.2 = w.2 := by
  have hresult := congrArg Prod.fst h
  have hworld := congrArg (fun r => r.2.2) h
  simp only [recording] at hresult hworld
  rw [hresult, List.append_nil] at hworld
  exact hworld.symm

theorem recording_transferred {bytes : Nat}
    (h : recording writer input w = (.transferred bytes, w')) :
    w'.2 = w.2 ++ if bytes ≤ input.length then input.take bytes else [] := by
  have hresult := congrArg Prod.fst h
  have hworld := congrArg (fun r => r.2.2) h
  simp only [recording] at hresult hworld
  rw [hresult] at hworld
  exact hworld.symm

end Recording

/-- **The loop hands the front of the queue to the writer and keeps the rest**, whatever
the writer answers. -/
theorem drainLoop_spec (writer : ByteWriter ω) (queue : ByteQueue capacity)
    (w : ω × List UInt8) (budget : TurnBudget) :
    ∃ taken lost, (drainLoop (recording writer) queue w budget).Spec queue w.2 taken lost := by
  fun_induction drainLoop (recording writer) queue w budget with
  | case1 queue w budget hempty =>
      exact ⟨[], [], .stopped rfl (fun _ => hempty) fun h => by simp at h⟩
  | case2 queue w budget hsome hcall =>
      exact ⟨[], [], .stopped rfl (fun h => by cases h) fun _ => hsome⟩
  | case3 queue w budget hsome budget' hcall offered w' hwrite =>
      have hw := recording_transferred hwrite
      rw [if_pos (Nat.zero_le _), List.take_zero, List.append_nil] at hw
      exact ⟨[], [], .stopped hw (fun h => by cases h) fun _ => hsome⟩
  | case4 queue w budget hsome budget' hcall offered bytes w' hwrite hzero hexcess =>
      -- an excess count is not an acceptance
      have hw := recording_transferred hwrite
      have hnot : ¬ bytes ≤ (queue.pending.take offered).length := by
        rw [List.length_take]
        omega
      rw [if_neg hnot, List.append_nil] at hw
      exact ⟨[], [], .stopped hw (fun h => by cases h) fun _ => hsome⟩
  | case5 queue w budget hsome budget' hcall offered bytes w' hwrite hzero hle e herror =>
      have hfits : bytes ≤ queue.pending.length := by omega
      obtain ⟨queue', hok⟩ := ByteQueue.acceptWritten_isOk hfits
      rw [hok] at herror
      cases herror
  | case6 queue w budget hsome budget' hcall offered bytes w' hwrite hzero hle queue' hok ih =>
      obtain ⟨taken, lost, hspec⟩ := ih
      obtain ⟨hpending, hlimit, -⟩ := ByteQueue.acceptWritten_spec hok
      have hw := recording_transferred hwrite
      have hlen : bytes ≤ (queue.pending.take offered).length := by
        rw [List.length_take]
        omega
      rw [if_pos hlen, List.take_take, Nat.min_eq_left (Nat.le_of_not_lt hle)] at hw
      refine ⟨queue.pending.take bytes ++ taken, lost, ?_⟩
      refine { hspec with accepted_eq := ?_, pending_eq := ?_, limit_eq := ?_ }
      · rw [hspec.accepted_eq, hw, List.append_assoc]
      · have hrest := hspec.pending_eq
        rw [hpending] at hrest
        calc queue.pending = queue.pending.take bytes ++ queue.pending.drop bytes :=
              (List.take_append_drop _ _).symm
          _ = _ := by rw [hrest]; simp only [List.append_assoc]
      · rw [hspec.limit_eq, hlimit]
  | case7 queue w budget hsome budget' hcall offered w' hwrite ih =>
      obtain ⟨taken, lost, hspec⟩ := ih
      rw [recording_fault hwrite] at hspec
      exact ⟨taken, lost, hspec⟩
  | case8 queue w budget hsome budget' hcall offered w' hwrite =>
      exact ⟨[], [], .stopped (recording_fault hwrite) (fun h => by cases h) fun _ => hsome⟩
  | case9 queue w budget hsome budget' hcall offered w' hwrite =>
      exact ⟨[], [], .stopped (recording_fault hwrite) (fun h => by cases h) fun _ => hsome⟩
  | case10 queue w budget hsome budget' hcall offered w' hwrite =>
      refine ⟨[], queue.pending, ?_⟩
      exact
        { accepted_eq := by rw [recording_fault hwrite, List.append_nil]
          pending_eq := by simp
          lost_length := rfl
          limit_eq := rfl
          complete := fun h => by cases h
          stays := fun _ h => absurd rfl h
          lost_nil := fun h => absurd rfl h }
  | case11 queue w budget hsome budget' hcall offered w' hwrite =>
      exact ⟨[], [], .stopped (recording_fault hwrite) (fun h => by cases h) fun _ => hsome⟩
  | case12 queue w budget hsome budget' hcall offered w' hwrite =>
      exact ⟨[], [], .stopped (recording_fault hwrite) (fun h => by cases h) fun _ => hsome⟩

/-- Only a device reset makes the loop drop bytes. -/
theorem drainLoop_stop_ne_deviceReset {writer : ByteWriter ω}
    (hwriter : ∀ input w, (writer input w).1 ≠ .fault .deviceReset)
    (queue : ByteQueue capacity) (w : ω) (budget : TurnBudget) :
    (drainLoop writer queue w budget).stop ≠ .deviceReset := by
  fun_induction drainLoop writer queue w budget with
  | case10 queue w budget hsome budget' hcall offered w' hwrite =>
      exact absurd (congrArg Prod.fst hwrite) (hwriter _ _)
  | case6 queue w budget hsome budget' hcall offered bytes w' hwrite hzero hle queue' hok ih =>
      exact ih
  | case7 queue w budget hsome budget' hcall offered w' hwrite ih => exact ih
  | _ => simp

end Drain

/-! ### The transmit queue -/

/-- `slice::chunks`, for a size that is not zero. -/
def chunks {α : Type} (size : Nat) (l : List α) : List (List α) :=
  if _h : l = [] ∨ size = 0 then []
  else l.take size :: chunks size (l.drop size)
termination_by l.length
decreasing_by
  obtain ⟨hl, hsize⟩ := not_or.mp _h
  have hpos := List.length_pos_iff.mpr hl
  rw [List.length_drop]
  omega

theorem chunks_flatten {α : Type} {size : Nat} (hsize : size ≠ 0) (l : List α) :
    (chunks size l).flatten = l := by
  fun_induction chunks size l with
  | case1 l h => exact ((h.resolve_right hsize).symm : [] = l)
  | case2 l h ih => rw [List.flatten_cons, ih, List.take_append_drop]

theorem length_le_of_mem_chunks {α : Type} {size : Nat} {l chunk : List α}
    (h : chunk ∈ chunks size l) : chunk.length ≤ size := by
  fun_induction chunks size l with
  | case1 l hl => cases h
  | case2 l hl ih =>
      rcases List.mem_cons.mp h with rfl | hrest
      · exact List.length_take_le _ _
      · exact ih hrest

structure TransmitQueue where
  bytes : ByteQueue txBytes
  frameLimit : Nat
  limit_valid : ValidLimit frameLimit

/-- The encoder stays inside its buffer. -/
theorem encode_bounds {frame : Frame} {limit n : Nat} {output output' : List UInt8}
    (h : encode frame limit output = .ok (n, output')) :
    n ≤ output.length ∧ output'.length = output.length := by
  have hlimit : ValidLimit limit := by
    by_contra hnot
    simp [encode, validLimit, hnot, bind, Except.bind] at h
  have hpayload : frame.payload.length ≤ limit := by
    by_contra hnot
    rw [encode_oversized hlimit (Nat.lt_of_not_le hnot)] at h
    cases h
  have hroom : wireLength frame.payload.length ≤ output.length := by
    by_contra hnot
    rw [encode_short hlimit hpayload (Nat.lt_of_not_le hnot)] at h
    cases h
  rw [encode_eq_ok hlimit hpayload hroom] at h
  cases h
  exact ⟨hroom, blit_length (by rw [wire_length]; omega)⟩

/-- The call of `encode` in `admit_frame`, into the cells between the live bytes and
the limit. -/
def ByteQueue.encodeBehind {capacity : Nat} (q : ByteQueue capacity) (frame : Frame)
    (frameLimit : Nat) : Except FramingError (ByteQueue capacity) :=
  have hlength : (slice q.bytes q.stop q.limit).length = q.limit - q.stop :=
    slice_length (by rw [q.bytes_length]; exact q.limit_le)
  match h : encode frame frameLimit (slice q.bytes q.stop q.limit) with
  | .error e => .error e
  | .ok (length, output) =>
      .ok (q.extend output length
        (by
          have hstop := q.stop_le
          have hlimit := q.limit_le
          rw [(encode_bounds h).2, hlength, q.bytes_length]
          omega)
        (by
          have hstop := q.stop_le
          have hbound := (encode_bounds h).1
          omega))

/-- A frame is encoded behind what waits. -/
theorem ByteQueue.encodeBehind_spec {capacity : Nat} {q : ByteQueue capacity} {frame : Frame}
    {frameLimit : Nat} (hlimit : ValidLimit frameLimit)
    (hpayload : frame.payload.length ≤ frameLimit)
    (hroom : q.stop + wireLength frame.payload.length ≤ q.limit) :
    ∃ q', q.encodeBehind frame frameLimit = .ok q' ∧ q'.pending = q.pending ++ frame.wire ∧
      q'.limit = q.limit := by
  have hlength : (slice q.bytes q.stop q.limit).length = q.limit - q.stop :=
    slice_length (by rw [q.bytes_length]; exact q.limit_le)
  have hencode := encode_eq_ok hlimit hpayload
    (by rw [hlength]; omega : wireLength frame.payload.length ≤ (slice q.bytes q.stop q.limit).length)
  unfold encodeBehind
  dsimp only
  split
  · rename_i e herror
    rw [hencode] at herror
    cases herror
  · rename_i length output hok
    rw [hencode] at hok
    cases hok
    refine ⟨_, rfl, ?_, rfl⟩
    refine extend_pending ?_ (wire_length frame)
    rw [blit_zero, ← wire_length frame]
    exact List.take_left' rfl

namespace TransmitQueue

def new (frameLimit : Nat) : Except Error TransmitQueue :=
  if h : ValidLimit frameLimit then
    match ByteQueue.new txBytes with
    | .error e => .error e
    | .ok bytes => .ok { bytes, frameLimit, limit_valid := h }
  else .error .configuration

def pending (q : TransmitQueue) : List UInt8 := q.bytes.pending

def available (q : TransmitQueue) : Nat := q.bytes.available

def clear (q : TransmitQueue) : Nat × TransmitQueue :=
  (q.bytes.clear.1, { q with bytes := q.bytes.clear.2 })

/-- Encode a frame behind the live bytes. -/
def admitFrame (frame : Frame) : EStateM Error TransmitQueue Unit := fun q =>
  if frame.payload.length > q.frameLimit then .error .oversizedPayload q
  else if wireLength frame.payload.length > q.available then .error .capacity q
  else
    let q := { q with bytes := q.bytes.compact }
    match q.bytes.encodeBehind frame q.frameLimit with
    | .error _ => .error .configuration q
    | .ok bytes => .ok () { q with bytes }

def canAcceptPtyRead (q : TransmitQueue) : Bool :=
  q.available ≥ ptyReadBytes + (ptyReadBytes / q.frameLimit + 1) * maxOverhead

/-- `TransmitQueue::drain`. -/
def drain {ω : Type} (q : TransmitQueue) (writer : ByteWriter ω) (w : ω) (budget : TurnBudget) :
    TurnReport × TransmitQueue × ω × TurnBudget :=
  let (report, d) := Transport.drain writer q.bytes w budget
  (report, { q with bytes := d.queue }, d.world, d.budget)

/-- One turn of the loop in `admit_pty_input`. -/
def admitChunk (channel : UInt8) (chunk : List UInt8) : EStateM Error TransmitQueue Unit :=
  match Frame.command channel uih chunk with
  | .error _ => throw .channel
  | .ok frame => admitFrame frame

def admitPtyInput (channel : UInt8) (input : List UInt8) : EStateM Error TransmitQueue Unit :=
  fun q =>
    if channel = 0 ∨ channel ≥ 64 then .error .channel q
    else if input.length > ptyReadBytes then .error .oversizedPayload q
    else if ((chunks q.frameLimit input).map fun chunk => wireLength chunk.length).sum >
        q.available then .error .capacity q
    else (chunks q.frameLimit input).forM (admitChunk channel) q

theorem new_spec {frameLimit : Nat} {q : TransmitQueue} (h : new frameLimit = .ok q) :
    q.pending = [] ∧ q.frameLimit = frameLimit := by
  unfold new at h
  split at h
  · cases hbytes : (ByteQueue.new txBytes : Except Error (ByteQueue txBytes)) with
    | error e =>
        rw [hbytes] at h
        cases h
    | ok bytes =>
        rw [hbytes] at h
        cases h
        exact ⟨(ByteQueue.new_pending hbytes).1, rfl⟩
  · cases h

/-- **`admit_frame`** appends the frame's wire bytes, or leaves the queue as it was. -/
theorem admitFrame_spec (frame : Frame) (q : TransmitQueue) :
    Ends (admitFrame frame) q
      (fun _ q' => frame.payload.length ≤ q.frameLimit ∧
        wireLength frame.payload.length ≤ q.available ∧
        q'.pending = q.pending ++ frame.wire ∧ q'.frameLimit = q.frameLimit ∧
        q'.bytes.limit = q.bytes.limit)
      fun _ q' => q' = q ∧ (frame.payload.length > q.frameLimit ∨
        wireLength frame.payload.length > q.available) := by
  by_cases hpayload : frame.payload.length > q.frameLimit
  · have hresult : admitFrame frame q = .error .oversizedPayload q := if_pos hpayload
    exact (ends_of_error hresult).mpr ⟨rfl, Or.inl hpayload⟩
  · by_cases hroom : wireLength frame.payload.length > q.available
    · have hresult : admitFrame frame q = .error .capacity q :=
        (if_neg hpayload).trans (if_pos hroom)
      exact (ends_of_error hresult).mpr ⟨rfl, Or.inr hroom⟩
    · -- the room that `available` promises is there behind the compacted window
      obtain ⟨bytes, hok, hpending, hlimit⟩ := ByteQueue.encodeBehind_spec q.limit_valid
        (Nat.le_of_not_lt hpayload) (ByteQueue.compact_stop_add (Nat.le_of_not_lt hroom))
      have hresult : admitFrame frame q = .ok () { q with bytes } := by
        simp only [admitFrame, if_neg hpayload, if_neg hroom, hok]
      refine (ends_of_ok hresult).mpr ?_
      refine ⟨Nat.le_of_not_lt hpayload, Nat.le_of_not_lt hroom, ?_, rfl, hlimit⟩
      rw [pending, hpending, ByteQueue.compact_pending, pending]

/-- The frames that `admit_pty_input` makes of its input. -/
def ptyFrames (channel : UInt8) (frameLimit : Nat) (input : List UInt8) : List Frame :=
  (chunks frameLimit input).map fun chunk => ⟨channel <<< 2 ||| 3, uih, chunk⟩

/-- The loop of `admit_pty_input`: with room for all the chunks every frame is
admitted. -/
theorem admitChunks_spec {channel : UInt8} {frameLimit : Nat} {rest : List (List UInt8)}
    {q : TransmitQueue} (hchannel : ¬ channel ≥ 64) (hlimit : q.frameLimit = frameLimit)
    (hrest : ∀ chunk ∈ rest, chunk.length ≤ frameLimit)
    (hroom : (rest.map fun chunk => wireLength chunk.length).sum ≤ q.available) :
    Ends (rest.forM (admitChunk channel)) q
      (fun _ q' => q'.pending = q.pending ++
          (rest.map fun chunk => (⟨channel <<< 2 ||| 3, uih, chunk⟩ : Frame)).flatMap Frame.wire ∧
        q'.frameLimit = q.frameLimit ∧ q'.bytes.limit = q.bytes.limit)
      fun _ _ => False := by
  induction rest generalizing q with
  | nil =>
      refine (ends_pure _).mpr ⟨?_, rfl, rfl⟩
      simp
  | cons chunk rest ih =>
      rw [List.map_cons, List.sum_cons] at hroom
      have hcommand : admitChunk channel chunk = admitFrame ⟨channel <<< 2 ||| 3, uih, chunk⟩ := by
        simp only [admitChunk, Frame.command, if_neg hchannel]
      have hlength : chunk.length ≤ q.frameLimit := hlimit ▸ hrest chunk (List.mem_cons_self ..)
      refine ends_bind.mpr ?_
      rw [hcommand]
      refine (admitFrame_spec _ q).mono ?_ ?_
      · rintro _ q' ⟨-, -, hpending, hlimit', hqueue⟩
        -- the frame took its own share of the room
        have hroom' : (rest.map fun chunk => wireLength chunk.length).sum ≤ q'.available := by
          have hlen := congrArg List.length hpending
          rw [List.length_append, wire_length] at hlen
          simp only [available, ByteQueue.available, hqueue] at hroom ⊢
          simp only [pending] at hlen
          rw [hlen]
          omega
        refine (ih (hlimit'.trans hlimit) (fun c hc => hrest c (List.mem_cons_of_mem _ hc))
          hroom').mono ?_ fun _ _ h => h
        rintro _ q'' ⟨hpending', hlimit'', hqueue'⟩
        refine ⟨?_, hlimit''.trans hlimit', hqueue'.trans hqueue⟩
        rw [hpending', hpending, List.map_cons, List.flatMap_cons, List.append_assoc]
      · rintro e q' ⟨-, hpayload | hfull⟩
        · exact Nat.not_lt.mpr hlength hpayload
        · dsimp only at hfull
          omega

/-- **`admit_pty_input`** appends the frames of all its chunks, or leaves the queue as
it was. -/
theorem admitPtyInput_spec (channel : UInt8) (input : List UInt8) (q : TransmitQueue) :
    Ends (admitPtyInput channel input) q
      (fun _ q' => channel ≠ 0 ∧ channel < 64 ∧ input.length ≤ ptyReadBytes ∧
        q'.pending = q.pending ++ (ptyFrames channel q.frameLimit input).flatMap Frame.wire ∧
        q'.frameLimit = q.frameLimit ∧ q'.bytes.limit = q.bytes.limit)
      fun _ q' => q' = q ∧ (channel = 0 ∨ channel ≥ 64 ∨ input.length > ptyReadBytes ∨
        ((chunks q.frameLimit input).map fun chunk => wireLength chunk.length).sum >
          q.available) := by
  by_cases hchannel : channel = 0 ∨ channel ≥ 64
  · have hresult : admitPtyInput channel input q = .error .channel q := if_pos hchannel
    exact (ends_of_error hresult).mpr ⟨rfl, hchannel.imp_right Or.inl⟩
  · by_cases hlength : input.length > ptyReadBytes
    · have hresult : admitPtyInput channel input q = .error .oversizedPayload q :=
        (if_neg hchannel).trans (if_pos hlength)
      exact (ends_of_error hresult).mpr ⟨rfl, Or.inr (Or.inr (Or.inl hlength))⟩
    · by_cases hroom : ((chunks q.frameLimit input).map fun chunk =>
          wireLength chunk.length).sum > q.available
      · have hresult : admitPtyInput channel input q = .error .capacity q :=
          (if_neg hchannel).trans ((if_neg hlength).trans (if_pos hroom))
        exact (ends_of_error hresult).mpr ⟨rfl, Or.inr (Or.inr (Or.inr hroom))⟩
      · obtain ⟨hzero, hbound⟩ := not_or.mp hchannel
        have hresult : admitPtyInput channel input q =
            (chunks q.frameLimit input).forM (admitChunk channel) q :=
          (if_neg hchannel).trans ((if_neg hlength).trans (if_neg hroom))
        refine (ends_congr hresult).mpr ?_
        refine (admitChunks_spec hbound rfl (fun _ h => length_le_of_mem_chunks h)
          (Nat.le_of_not_lt hroom)).mono ?_ fun _ _ h => h.elim
        rintro _ q' ⟨hpending, hlimit, hqueue⟩
        exact ⟨hzero, UInt8.not_le.mp hbound, Nat.le_of_not_lt hlength, hpending, hlimit, hqueue⟩

end TransmitQueue

/-! ### Pending remainders -/

/-- The bytes that an endpoint has not taken yet, with room for one frame beyond
`PENDING_BYTES`. -/
structure PendingQueue (capacity : Nat) where
  bytes : ByteQueue capacity
  frameLimit : Nat
  limit_eq : bytes.limit = pendingBytes + frameLimit

namespace PendingQueue

variable {capacity : Nat}

def new (frameLimit : Nat) : Except Error (PendingQueue capacity) :=
  if ValidLimit frameLimit then
    match h : (ByteQueue.new (pendingBytes + frameLimit) : Except Error (ByteQueue capacity)) with
    | .error e => .error e
    | .ok bytes => .ok { bytes, frameLimit, limit_eq := (ByteQueue.new_pending h).2 }
  else .error .configuration

def pending (q : PendingQueue capacity) : List UInt8 := q.bytes.pending

def bufferRemainder (q : PendingQueue capacity) (input : List UInt8) :
    Except Error (PendingQueue capacity) :=
  if input.length > q.frameLimit then .error .oversizedPayload
  else if q.pending ≠ [] ∧ q.pending.length + input.length > pendingBytes then .error .capacity
  else
    match h : q.bytes.append input with
    | .error e => .error e
    | .ok bytes =>
        .ok { q with bytes, limit_eq := (ByteQueue.append_spec h).2.trans q.limit_eq }

def clear (q : PendingQueue capacity) : Nat × PendingQueue capacity :=
  (q.bytes.clear.1, { q with bytes := q.bytes.clear.2 })

/-- `PendingQueue::drain`, with the bytes that the writer accepted. -/
def drain {ω : Type} (q : PendingQueue capacity) (writer : ByteWriter ω) (w : ω)
    (budget : TurnBudget) :
    TurnReport × PendingQueue capacity × (ω × List UInt8) × TurnBudget :=
  let r := Transport.drain (recording writer) q.bytes (w, []) budget
  (r.1,
    { q with
      bytes := r.2.queue
      limit_eq := by
        obtain ⟨taken, lost, hspec⟩ := drainLoop_spec writer q.bytes (w, []) budget
        exact hspec.limit_eq.trans q.limit_eq },
    r.2.world, r.2.budget)

theorem new_spec {frameLimit : Nat} {q : PendingQueue capacity} (h : new frameLimit = .ok q) :
    q.pending = [] ∧ q.frameLimit = frameLimit := by
  unfold new at h
  split at h
  · split at h
    · cases h
    · rename_i bytes hbytes
      cases h
      exact ⟨(ByteQueue.new_pending hbytes).1, rfl⟩
  · cases h

@[simp] theorem clear_pending (q : PendingQueue capacity) : q.clear.2.pending = [] :=
  ByteQueue.clear_pending _

/-- A remainder is appended whole or not at all. -/
theorem bufferRemainder_spec {q q' : PendingQueue capacity} {input : List UInt8}
    (h : q.bufferRemainder input = .ok q') :
    q'.pending = q.pending ++ input ∧ q'.frameLimit = q.frameLimit := by
  unfold bufferRemainder at h
  split at h
  · cases h
  · split at h
    · cases h
    · split at h
      · cases h
      · rename_i bytes happend
        cases h
        exact ⟨(ByteQueue.append_spec happend).1, rfl⟩

/-- An empty queue takes any remainder of a frame. -/
theorem bufferRemainder_isOk {q : PendingQueue capacity} {input : List UInt8}
    (hempty : q.pending = []) (hinput : input.length ≤ q.frameLimit) :
    ∃ q', q.bufferRemainder input = .ok q' := by
  have hroom : input.length ≤ q.bytes.available := by
    have hlimit := q.limit_eq
    rw [ByteQueue.available, hlimit]
    simp only [pending] at hempty
    rw [hempty, List.length_nil]
    omega
  obtain ⟨bytes, hbytes⟩ := ByteQueue.append_isOk hroom
  unfold bufferRemainder
  rw [if_neg (Nat.not_lt.mpr hinput), if_neg (fun h => h.1 hempty)]
  split
  · rename_i e herror
    rw [hbytes] at herror
    cases herror
  · exact ⟨_, rfl⟩

end PendingQueue

/-! ### Poll epochs -/

inductive EndpointId
  | serial
  | channel (channel : UInt8)
  deriving DecidableEq

def EndpointId.slot : EndpointId → Except Error (Fin 64)
  | .serial => .ok 0
  | .channel number =>
      if h : 0 < number.toNat ∧ number.toNat < 64 then .ok ⟨number.toNat, h.2⟩
      else .error .channel

structure PollToken where
  endpoint : EndpointId
  descriptor : Int
  generation : Nat
  deriving DecidableEq

structure PollEpochs where
  entries : Fin 64 → Option PollToken

namespace PollEpochs

def default : PollEpochs := ⟨fun _ => none⟩

/-- `next_epoch` on a counter that stands at `generation`. -/
def nextEpoch (generation : Nat) : Option Nat := checkedAdd generation 1

/-- Replace an endpoint's token by one of a new generation. The state also holds the
process-wide counter `NEXT_GENERATION`. -/
def replace (endpoint : EndpointId) (descriptor : Int) : EStateM Error (PollEpochs × Nat) PollToken :=
  fun st =>
    match endpoint.slot with
    | .error e => .error e st
    | .ok slot =>
        if descriptor < 0 then .error .descriptor st
        else
          let cleared := Function.update st.1.entries slot none
          match nextEpoch st.2 with
          | none => .error .epochExhausted (⟨cleared⟩, st.2)
          | some generation =>
              let token : PollToken := { endpoint, descriptor, generation }
              .ok token (⟨Function.update cleared slot (some token)⟩, generation)

def invalidate (epochs : PollEpochs) (endpoint : EndpointId) : Except Error PollEpochs :=
  match endpoint.slot with
  | .error e => .error e
  | .ok slot => .ok ⟨Function.update epochs.entries slot none⟩

def reset (_ : PollEpochs) : PollEpochs := ⟨fun _ => none⟩

def isCurrent (epochs : PollEpochs) (token : PollToken) : Bool :=
  match token.endpoint.slot with
  | .error _ => false
  | .ok slot => epochs.entries slot == some token

end PollEpochs

end Mindone.Mux.Transport
