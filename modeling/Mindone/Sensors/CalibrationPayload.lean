import Mindone.Sensors.CalibrationStore

/-!
# Mindone.Sensors.CalibrationPayload

**The two builds of `buildPayload` agree.** The Rust core copies the values into chunks of four
bytes, the plain build copies as many bytes as both have; on a region inside the buffer that is the
same (`rust_writeRegion`), and cutting the core's buffer to the sensor's length commutes with it
(`writeRegion_take`). What no value covers stays zero (`writeRegion_outside`).
-/

namespace Mindone.Sensors

open Mindone.Lib

/-! ### Writing a region -/

section Write

variable {buf chunk : List UInt8} {region : RegionLayout} {values : List Int32} {total i : Nat}

@[simp] theorem length_leBytes (v : Int32) : (leBytes v).length = 4 := rfl

theorem length_flatMap_leBytes (values : List Int32) :
    (values.flatMap leBytes).length = 4 * values.length := by
  induction values with
  | nil => rfl
  | cons v values ih =>
      simp only [List.flatMap_cons, List.length_append, length_leBytes, ih, List.length_cons]
      omega

/-- How many bytes of a region its values cover. -/
def covered (region : RegionLayout) (values : List Int32) : Nat :=
  4 * min (region.length / 4) values.length

theorem covered_le (region : RegionLayout) (values : List Int32) :
    covered region values ≤ region.length := by
  unfold covered
  omega

/-- The bytes that the plain build copies. -/
def copied (region : RegionLayout) (values : List Int32) : List UInt8 :=
  (values.take (min (region.length / 4) values.length)).flatMap leBytes

theorem length_copied (region : RegionLayout) (values : List Int32) :
    (copied region values).length = covered region values := by
  simp only [copied, covered, length_flatMap_leBytes, List.length_take]
  omega

theorem blit_nil (buf : List UInt8) (pos : Nat) : blit buf pos [] = buf := by
  simp [blit]

/-- The plain build without its test for nothing to copy. -/
theorem plain_writeRegion (buf : List UInt8) (region : RegionLayout) (values : List Int32) :
    Plain.writeRegion buf region values = blit buf region.offset (copied region values) := by
  unfold Plain.writeRegion copied
  dsimp only
  split
  · rfl
  · rename_i hnone
    have hzero : min (region.length / 4) values.length = 0 := by omega
    rw [hzero, List.take_zero, List.flatMap_nil, blit_nil]

theorem writeChunks_eq (chunk : List UInt8) (values : List Int32) :
    Rust.writeChunks chunk values =
      (values.take (min (chunk.length / 4) values.length)).flatMap leBytes ++
        chunk.drop (4 * min (chunk.length / 4) values.length) := by
  induction values generalizing chunk with
  | nil => simp [Rust.writeChunks]
  | cons v values ih =>
      unfold Rust.writeChunks
      split
      · -- no chunk is left
        rename_i hshort
        have hzero : chunk.length / 4 = 0 := by omega
        simp [hzero]
      · rename_i hlong
        have hcount : min (chunk.length / 4) (values.length + 1) =
            min ((chunk.length - 4) / 4) values.length + 1 := by omega
        rw [ih, List.length_cons, List.length_drop, hcount, List.take_succ_cons, List.flatMap_cons,
          List.append_assoc, List.drop_drop, Nat.mul_add, Nat.mul_one]
        rw [Nat.add_comm 4]

/-- Writing back what stood there changes nothing. -/
theorem blit_slice (src : List UInt8) {pos stop : Nat} (hsrc : pos + src.length ≤ stop)
    (hstop : stop ≤ buf.length) :
    blit buf pos (src ++ (slice buf pos stop).drop src.length) = blit buf pos src := by
  have hrest : (slice buf pos stop).drop src.length ++ buf.drop stop =
      buf.drop (pos + src.length) := by
    rw [slice_drop]
    unfold slice
    calc (buf.take stop).drop (pos + src.length) ++ buf.drop stop
        = (buf.take stop ++ buf.drop stop).drop (pos + src.length) := by
          rw [List.drop_append_of_le_length (by simp; omega)]
      _ = buf.drop (pos + src.length) := by rw [List.take_append_drop]
  have hlength : pos + (src ++ (slice buf pos stop).drop src.length).length = stop := by
    rw [List.length_append, List.length_drop, slice_length hstop]
    omega
  unfold blit
  rw [hlength, ← List.append_assoc, List.append_assoc, hrest]

/-- **The Rust core writes a region like the plain build.** -/
theorem rust_writeRegion (hinside : region.offset + region.length ≤ buf.length) :
    Rust.writeRegion buf region values = Plain.writeRegion buf region values := by
  have hlength : (slice buf region.offset (region.offset + region.length)).length =
      region.length := by
    rw [slice_length hinside]
    omega
  have hcovered := covered_le region values
  rw [plain_writeRegion, Rust.writeRegion, writeChunks_eq, hlength,
    ← blit_slice (copied region values) (by rw [length_copied]; omega) hinside, length_copied]
  rfl

theorem length_writeRegion (hinside : region.offset + region.length ≤ buf.length) :
    (Plain.writeRegion buf region values).length = buf.length := by
  have hcovered := covered_le region values
  rw [plain_writeRegion, blit_length (by rw [length_copied]; omega)]

/-- The end of the buffer behind the region can be cut off before or after. -/
theorem writeRegion_take (hinside : region.offset + region.length ≤ total)
    (htotal : total ≤ buf.length) :
    (Plain.writeRegion buf region values).take total =
      Plain.writeRegion (buf.take total) region values := by
  have hcovered := covered_le region values
  have hlength := length_copied region values
  rw [plain_writeRegion, plain_writeRegion]
  unfold blit
  rw [List.take_append, List.take_append, List.take_take, List.take_take, List.drop_take,
    List.length_append, List.length_take, hlength]
  rw [List.take_of_length_le (l := copied region values) (by rw [hlength]; omega)]
  congr 2
  · congr 1
    omega
  · omega

theorem writeRegion_nil (buf : List UInt8) (region : RegionLayout) :
    Plain.writeRegion buf region [] = buf := by
  rw [plain_writeRegion]
  simp [copied, blit_nil]

/-- A byte that the values of the region cover. -/
def Covers (region : RegionLayout) (values : List Int32) (i : Nat) : Prop :=
  region.offset ≤ i ∧ i < region.offset + covered region values

/-- What the values do not cover stays. -/
theorem writeRegion_outside (hinside : region.offset + region.length ≤ buf.length)
    (hi : ¬ Covers region values i) :
    (Plain.writeRegion buf region values)[i]? = buf[i]? := by
  have hcovered := covered_le region values
  have hlength := length_copied region values
  rw [plain_writeRegion]
  unfold blit
  by_cases hbefore : i < region.offset
  · rw [List.append_assoc, List.getElem?_append_left (by simp; omega),
      List.getElem?_take_of_lt hbefore]
  · have hbehind : region.offset + covered region values ≤ i := by
      unfold Covers at hi
      omega
    rw [List.getElem?_append_right (by simp [hlength]; omega), List.getElem?_drop]
    congr 1
    simp only [List.length_append, List.length_take, hlength]
    omega

end Write

/-! ### The layouts -/

/-- What the tables of both builds have in common. -/
structure SensorLayout.Sound (layout : SensorLayout) : Prop where
  core : Rust.layout layout.sensorType =
    .ok ⟨layout.totalLength, layout.bias, layout.cali, layout.temp⟩
  inside : ∀ r, (layout.region r).offset + (layout.region r).length ≤ layout.totalLength
  apart : ∀ r r', r ≠ r' →
    (layout.region r).length = 0 ∨ (layout.region r').length = 0 ∨
    (layout.region r).offset + (layout.region r).length ≤ (layout.region r').offset ∨
    (layout.region r').offset + (layout.region r').length ≤ (layout.region r).offset
  total : layout.totalLength ≤ Rust.calibrationBytes
  words : layout.bias.length % 4 = 0 ∧ layout.cali.length % 4 = 0

theorem allLayouts_sound : ∀ layout ∈ allLayouts, layout.Sound := by
  intro layout hlayout
  simp only [allLayouts, List.mem_cons, List.not_mem_nil, or_false] at hlayout
  rcases hlayout with rfl | rfl | rfl | rfl <;>
    exact ⟨rfl, fun r => by cases r <;> decide,
      fun r r' => by cases r <;> cases r' <;> decide, by decide, by decide⟩

/-! ### The payload -/

section Payload

variable {layout : SensorLayout} {reads : Reads} {caches : Caches} {buf : List UInt8}

/-- The cali file holds the bias as well. -/
def combined (layout : SensorLayout) (cali : List Int32) : Bool :=
  layout.bias.length / 4 > 0 && cali.length == layout.bias.length / 4 + layout.cali.length / 4

/-- The writes of both builds, in their order. -/
def payloadWrites (layout : SensorLayout) (reads : Reads) : List (Region × List Int32) :=
  let cali := reads.cali.getD []
  (.bias, reads.bias.getD []) ::
    ((if combined layout cali then
        [(.bias, cali.take (layout.bias.length / 4)), (.cali, cali.drop (layout.bias.length / 4))]
      else [(.cali, cali)]) ++ [(.temp, reads.temp.getD [])])

def Plain.write (layout : SensorLayout) (buf : List UInt8) (w : Region × List Int32) : List UInt8 :=
  Plain.writeRegion buf (layout.region w.1) w.2

theorem length_write (h : layout.Sound) (hbuf : layout.totalLength ≤ buf.length)
    (w : Region × List Int32) : (Plain.write layout buf w).length = buf.length :=
  length_writeRegion (Nat.le_trans (h.inside w.1) hbuf)

theorem length_writes (h : layout.Sound) (hbuf : layout.totalLength ≤ buf.length)
    (ws : List (Region × List Int32)) :
    (ws.foldl (Plain.write layout) buf).length = buf.length := by
  induction ws generalizing buf with
  | nil => rfl
  | cons w ws ih =>
      have hlength := length_write h hbuf w
      rw [List.foldl_cons, ih (hlength ▸ hbuf), hlength]

/-- The core's writes, in its longer buffer. -/
theorem rust_writes (h : layout.Sound) (hbuf : layout.totalLength ≤ buf.length)
    (ws : List (Region × List Int32)) :
    (ws.foldl (fun b w => Rust.writeRegion b (layout.region w.1) w.2) buf).take layout.totalLength =
      ws.foldl (Plain.write layout) (buf.take layout.totalLength) := by
  induction ws generalizing buf with
  | nil => rfl
  | cons w ws ih =>
      have hinside := h.inside w.1
      have hlength := length_write h hbuf w
      rw [List.foldl_cons, List.foldl_cons, rust_writeRegion (Nat.le_trans hinside hbuf)]
      refine (ih (hlength.symm ▸ hbuf)).trans ?_
      rw [Plain.write, writeRegion_take hinside hbuf]

theorem writes_outside (h : layout.Sound) (hbuf : layout.totalLength ≤ buf.length) {i : Nat}
    (ws : List (Region × List Int32))
    (hi : ∀ w ∈ ws, ¬ Covers (layout.region w.1) w.2 i) :
    (ws.foldl (Plain.write layout) buf)[i]? = buf[i]? := by
  induction ws generalizing buf with
  | nil => rfl
  | cons w ws ih =>
      have hlength := length_write h hbuf w
      rw [List.foldl_cons, ih (hlength.symm ▸ hbuf) fun w' hw' => hi w' (.tail _ hw')]
      exact writeRegion_outside (Nat.le_trans (h.inside w.1) hbuf) (hi w List.mem_cons_self)

theorem combined_iff (h : layout.Sound) (cali : List Int32) : combined layout cali = true ↔
    layout.bias.length > 0 ∧
      cali.length = layout.bias.length / 4 + layout.cali.length / 4 := by
  have hwords := h.words.1
  simp only [combined, Bool.and_eq_true, decide_eq_true_eq, beq_iff_eq]
  refine and_congr_left fun _ => ?_
  omega

/-- The plain build makes these writes. -/
theorem plain_bytes (h : layout.Sound) (reads : Reads) (caches : Caches) :
    (Plain.buildPayload layout reads caches).1 =
      (payloadWrites layout (reads.of layout)).foldl (Plain.write layout)
        (List.replicate layout.totalLength 0) := by
  unfold Plain.buildPayload payloadWrites
  generalize reads.of layout = reads
  obtain ⟨bias, cali, temp⟩ := reads
  have hcali : ∀ (values : List Int32) (state : List UInt8 × Caches),
      (Plain.buildCali layout values state).1 =
        (if combined layout values then
          [(Region.bias, values.take (layout.bias.length / 4)),
            (.cali, values.drop (layout.bias.length / 4))]
        else [(.cali, values)]).foldl (Plain.write layout) state.1 := by
    intro values state
    unfold Plain.buildCali
    dsimp only
    by_cases hcombined : combined layout values = true
    · rw [if_pos ((combined_iff h values).mp hcombined), if_pos hcombined]
      rfl
    · rw [if_neg fun hc => hcombined ((combined_iff h values).mpr hc), if_neg hcombined]
      rfl
  have hnone : combined layout [] = false := by
    unfold combined
    simp only [Bool.and_eq_false_iff, decide_eq_false_iff_not, beq_eq_false_iff_ne,
      List.length_nil]
    omega
  cases bias <;> cases cali <;> cases temp <;>
    simp [Plain.write, Plain.build, hcali, hnone, writeRegion_nil, SensorLayout.region]

/-- And so does the core. -/
theorem rust_bytes (h : layout.Sound) (bias cali temp : Option (List Int32)) :
    ∃ result, Rust.calibrationPayload layout.sensorType (bias.getD []) (cali.getD [])
        (temp.getD []) = some result ∧
      result.layout = ⟨layout.totalLength, layout.bias, layout.cali, layout.temp⟩ ∧
      result.combined = combined layout (cali.getD []) ∧
      result.bytes.take layout.totalLength =
        (payloadWrites layout ⟨bias, cali, temp⟩).foldl (Plain.write layout)
          (List.replicate layout.totalLength 0) := by
  unfold Rust.calibrationPayload Rust.payload
  rw [h.core]
  refine ⟨_, rfl, rfl, rfl, ?_⟩
  have hlong : layout.totalLength ≤ (List.replicate Rust.calibrationBytes (0 : UInt8)).length := by
    rw [List.length_replicate]
    exact h.total
  have hwrites := rust_writes h hlong (payloadWrites layout ⟨bias, cali, temp⟩)
  rw [List.take_replicate, Nat.min_eq_left h.total] at hwrites
  rw [← hwrites]
  unfold payloadWrites
  simp only [List.foldl_cons, List.foldl_append, List.foldl_nil, SensorLayout.region]
  congr 1
  congr 1
  by_cases hcombined : combined layout (cali.getD []) = true
  · rw [if_pos hcombined]
    exact if_pos hcombined
  · rw [if_neg hcombined]
    exact if_neg hcombined

/-- The core's answer is accepted, and the caches are seeded alike. -/
theorem rust_seeds (h : layout.Sound) (reads : Reads) (caches : Caches) {result : Rust.Payload}
    (hlayout : result.layout =
      ⟨layout.totalLength, layout.bias, layout.cali, layout.temp⟩)
    (hcombined : result.combined = combined layout ((reads.of layout).cali.getD [])) :
    Rust.accepted layout (reads.of layout).cali result = true ∧
      Rust.seedAll layout (reads.of layout) result caches =
        (Plain.buildPayload layout reads caches).2 := by
  unfold Plain.buildPayload Rust.accepted Rust.seedAll
  generalize reads.of layout = reads at hcombined ⊢
  obtain ⟨bias, cali, temp⟩ := reads
  have hnone : combined layout [] = false := by
    unfold combined
    simp only [Bool.and_eq_false_iff, decide_eq_false_iff_not, beq_eq_false_iff_ne,
      List.length_nil]
    omega
  -- The plain build decides by the length, the core by what it was told is combined.
  have hcali : ∀ (values : List Int32) (state : List UInt8 × Caches),
      (Plain.buildCali layout values state).2 =
        if combined layout values then
          (state.2.seed .bias layout (values.take (layout.bias.length / 4))).seed .cali layout
            (values.drop (layout.bias.length / 4))
        else state.2.seed .cali layout values := by
    intro values state
    unfold Plain.buildCali
    dsimp only
    by_cases hc : combined layout values = true
    · rw [if_pos ((combined_iff h values).mp hc), if_pos hc]
    · rw [if_neg fun hc' => hc ((combined_iff h values).mpr hc'), if_neg hc]
      rfl
  rw [hlayout, hcombined]
  constructor
  -- Accepted: the core has combined what the layout allows and nothing else.
  · cases cali with
    | none => simp [hnone]
    | some values =>
        have hwords := h.words
        cases hc : combined layout values with
        | false => simp [hc]
        | true =>
            obtain ⟨hpos, hlength⟩ := (combined_iff h values).mp hc
            simp only [Option.getD_some, hc, Option.any_some, decide_true, Bool.true_and,
              Bool.not_true, Bool.false_or, Bool.and_eq_true, decide_eq_true_eq]
            omega
  · cases bias <;> cases cali <;> cases temp <;> simp [Plain.build, hcali]

/-- Which values stand in a region of the payload: those of its file, or a part of the cali file. -/
inductive Supplied (layout : SensorLayout) (reads : Reads) : Region → List Int32 → Prop
  | bias {values : List Int32} :
      (reads.of layout).bias = some values → Supplied layout reads .bias values
  | cali {values : List Int32} :
      (reads.of layout).cali = some values → combined layout values = false →
      Supplied layout reads .cali values
  | biasPart {values : List Int32} :
      (reads.of layout).cali = some values → combined layout values = true →
      Supplied layout reads .bias (values.take (layout.bias.length / 4))
  | caliPart {values : List Int32} :
      (reads.of layout).cali = some values → combined layout values = true →
      Supplied layout reads .cali (values.drop (layout.bias.length / 4))
  | temp {values : List Int32} :
      (reads.of layout).temp = some values → Supplied layout reads .temp values

theorem not_covers_nil (region : RegionLayout) (i : Nat) : ¬ Covers region [] i := by
  simp only [Covers, covered, List.length_nil]
  omega

/-- Every write covers no more than what was supplied. -/
theorem supplied_of_write {i : Nat}
    (hi : ∀ r values, Supplied layout reads r values → ¬ Covers (layout.region r) values i) :
    ∀ w ∈ payloadWrites layout (reads.of layout), ¬ Covers (layout.region w.1) w.2 i := by
  have hgetD : ∀ (r : Region) (values : Option (List Int32)),
      (∀ v, values = some v → Supplied layout reads r v) →
      ¬ Covers (layout.region r) (values.getD []) i := by
    intro r values hsupplied
    cases values with
    | none => exact not_covers_nil _ i
    | some v => exact hi r v (hsupplied v rfl)
  intro w hw
  simp only [payloadWrites, List.mem_cons, List.mem_append, List.not_mem_nil, or_false] at hw
  rcases hw with rfl | hw | rfl
  · exact hgetD .bias _ fun v hv => .bias hv
  · split at hw
    · -- the cali file holds the bias as well
      rename_i hcombined
      cases hcali : (reads.of layout).cali with
      | none =>
          rw [hcali] at hcombined
          simp only [combined, Option.getD_none, List.length_nil, Bool.and_eq_true,
            decide_eq_true_eq, beq_iff_eq] at hcombined
          omega
      | some values =>
          rw [hcali] at hcombined hw
          simp only [List.mem_cons, List.not_mem_nil, or_false] at hw
          rcases hw with rfl | rfl
          · exact hi _ _ (.biasPart hcali hcombined)
          · exact hi _ _ (.caliPart hcali hcombined)
    · rename_i hcombined
      rw [List.mem_singleton.mp hw]
      refine hgetD .cali _ fun v hv => .cali hv ?_
      rw [hv] at hcombined
      exact (Bool.not_eq_true _).mp hcombined
  · exact hgetD .temp _ fun v hv => .temp hv

end Payload

/-- **Both builds return the same bytes and leave the same caches**, for every supported sensor and
files of any length; the regions lie apart in the sensor's length, and a byte that no supplied value
covers is zero. -/
theorem builds_agree (layout : SensorLayout) (hlayout : layout ∈ allLayouts) (reads : Reads)
    (caches : Caches) :
    Rust.buildPayload layout reads caches = Plain.buildPayload layout reads caches ∧
    (Plain.buildPayload layout reads caches).1.length = layout.totalLength ∧
    (∀ r, (layout.region r).offset + (layout.region r).length ≤ layout.totalLength) ∧
    (∀ r r', r ≠ r' →
      (layout.region r).length = 0 ∨ (layout.region r').length = 0 ∨
      (layout.region r).offset + (layout.region r).length ≤ (layout.region r').offset ∨
      (layout.region r').offset + (layout.region r').length ≤ (layout.region r).offset) ∧
    ∀ i < layout.totalLength,
      (∀ r values, Supplied layout reads r values → ¬ Covers (layout.region r) values i) →
      (Plain.buildPayload layout reads caches).1[i]? = some 0 := by
  have h := allLayouts_sound layout hlayout
  have hzeros : (List.replicate layout.totalLength (0 : UInt8)).length = layout.totalLength :=
    List.length_replicate
  refine ⟨?_, ?_, h.inside, h.apart, fun i hlt hi => ?_⟩
  · obtain ⟨result, hresult, hsame, hcombined, hbytes⟩ :=
      rust_bytes h (reads.of layout).bias (reads.of layout).cali (reads.of layout).temp
    obtain ⟨haccepted, hseeds⟩ := rust_seeds h reads caches hsame hcombined
    unfold Rust.buildPayload
    dsimp only
    rw [hresult]
    dsimp only
    rw [if_pos haccepted, hseeds, hsame]
    exact Prod.ext (hbytes.trans (plain_bytes h reads caches).symm) rfl
  · rw [plain_bytes h, length_writes h (Nat.le_of_eq hzeros.symm), hzeros]
  · rw [plain_bytes h, writes_outside h (Nat.le_of_eq hzeros.symm) _ (supplied_of_write hi),
      List.getElem?_replicate, if_pos hlt]

/-- A combined file of the accelerometer: the payload begins with its first value, and without a file
it ends with zero. -/
theorem builds_agree_combined :
    ∃ layout ∈ allLayouts,
      Rust.buildPayload layout ⟨none, some [2, 2, 2, 3, 3, 3], none⟩ (fun _ => none) =
        Plain.buildPayload layout ⟨none, some [2, 2, 2, 3, 3, 3], none⟩ (fun _ => none) ∧
      (Plain.buildPayload layout ⟨none, some [2, 2, 2, 3, 3, 3], none⟩ fun _ => none).1.take 4 =
        [2, 0, 0, 0] ∧
      (Plain.buildPayload layout ⟨none, none, none⟩ fun _ => none).1[23]? = some 0 := by
  refine ⟨_, .head _, (builds_agree _ (.head _) _ _).1, by decide +kernel, ?_⟩
  refine (builds_agree _ (.head _) _ _).2.2.2.2 23 (by decide) fun r values hsupplied => ?_
  cases hsupplied with
  | bias h => cases h
  | cali h _ => cases h
  | temp h => cases h
  | biasPart h _ => cases h
  | caliPart h _ => cases h

end Mindone.Sensors
