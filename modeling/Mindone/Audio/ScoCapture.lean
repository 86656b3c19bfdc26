import Mindone.Audio.ScoPlayback
import Mathlib.Data.List.GetD

/-!
# Mindone.Audio.ScoCapture

**Capture draws a line from each sample of the device to the next**, whatever the reads are: the last
sample of a read is where the next one starts (`Drawn`). Each output lies between the two samples it
was drawn between, so it fits, and the product on the way fits an `int32_t` for every ratio up to
32768.

`sco_rate_conversion` puts this beside what is known of playback.
-/

namespace Mindone.Audio.Sco

/-! ### The line -/

/-- The samples of a source behind the one before it. -/
def sampleAt (first : Int16) (source : List Int16) (k : Nat) : Int := ((first :: source).getD k 0).toInt

/-- Output `i` over a source. -/
def line (ratio : Nat) (first : Int16) (source : List Int16) (i : Nat) : Int :=
  let prev := sampleAt first source (i / ratio)
  let cur := sampleAt first source (i / ratio + 1)
  prev + ((cur - prev) * (i % ratio + 1 : Nat)).tdiv ratio

theorem fits16_sampleAt (first : Int16) (source : List Int16) (k : Nat) :
    Fits16 (sampleAt first source k) := fits16_toInt _

/-- A part of a rise lies between nothing and all of it. -/
theorem tdiv_between (rise : Int) {step ratio : Nat} (hpos : 0 < ratio) (hstep : step ≤ ratio) :
    min 0 rise ≤ (rise * step).tdiv ratio ∧ (rise * step).tdiv ratio ≤ max 0 rise := by
  have hn : (0 : Int) < ratio := by omega
  have hle : (step : Int) ≤ ratio := by omega
  have hself : (rise * ratio).tdiv ratio = rise := Int.mul_tdiv_cancel _ (by omega)
  rcases Int.le_total 0 rise with hup | hdown
  · have hlow := Int.tdiv_nonneg (Int.mul_nonneg hup (Int.natCast_nonneg step)) (Int.le_of_lt hn)
    have hhigh := Int.tdiv_le_tdiv hn (Int.mul_le_mul_of_nonneg_left hle hup)
    omega
  · have hlow := Int.tdiv_le_tdiv hn (Int.mul_le_mul_of_nonpos_left hdown hle)
    have hhigh := Int.tdiv_le_tdiv hn
      (Int.mul_nonpos_of_nonpos_of_nonneg hdown (Int.natCast_nonneg step))
    rw [Int.zero_tdiv] at hhigh
    omega

/-- **An output lies between the samples it is drawn between.** -/
theorem line_between (ratio : Nat) (hpos : 0 < ratio) (first : Int16) (source : List Int16) (i : Nat) :
    min (sampleAt first source (i / ratio)) (sampleAt first source (i / ratio + 1)) ≤
        line ratio first source i ∧
      line ratio first source i ≤
        max (sampleAt first source (i / ratio)) (sampleAt first source (i / ratio + 1)) := by
  have hstep : i % ratio + 1 ≤ ratio := Nat.mod_lt i hpos
  have hrise := tdiv_between (sampleAt first source (i / ratio + 1) -
    sampleAt first source (i / ratio)) hpos hstep
  simp only [line]
  omega

/-- The ratios that the products of capture fit an `int32_t` for. -/
def DrawRatio (ratio : Nat) : Prop := ratio ≤ 32768

/-- A point is computed without a trap. -/
theorem point_eq {ratio turn : Nat} (hturn : turn < ratio) (hratio : DrawRatio ratio) {prev cur : Int}
    (hprev : Fits16 prev) (hcur : Fits16 cur) :
    ∃ sample, point ratio turn prev cur = .ok sample ∧
      sample.toInt = prev + ((cur - prev) * (turn + 1 : Nat)).tdiv ratio := by
  simp only [DrawRatio] at hratio
  obtain ⟨hprevLow, hprevHigh⟩ := hprev
  obtain ⟨hcurLow, hcurHigh⟩ := hcur
  have hstep : castInt32 turn + 1 = ((turn + 1 : Nat) : Int) := by
    rw [castInt32_eq (by omega)]
    omega
  have hrise : int32 (cur - prev) = .ok (cur - prev) := int32_eq_ok ⟨by omega, by omega⟩
  have hproduct : int32 ((cur - prev) * (turn + 1 : Nat)) = .ok ((cur - prev) * (turn + 1 : Nat)) := by
    have hnonneg : (0 : Int) ≤ ((turn + 1 : Nat) : Int) := Int.natCast_nonneg _
    have hlow := Int.mul_le_mul_of_nonneg_right (show -65535 ≤ cur - prev by omega) hnonneg
    have hhigh := Int.mul_le_mul_of_nonneg_right (show cur - prev ≤ 65535 by omega) hnonneg
    exact int32_eq_ok ⟨by omega, by omega⟩
  have hall : turn + 1 ≤ ratio := hturn
  have hpart := tdiv_between (cur - prev) (show 0 < ratio by omega) hall
  generalize hvalue : prev + ((cur - prev) * (turn + 1 : Nat)).tdiv ratio = value
  have hvalue32 : int32 value = .ok value := int32_eq_ok ⟨by omega, by omega⟩
  obtain ⟨sample, hsample, heq⟩ := int16_eq_ok (x := value) ⟨by omega, by omega⟩
  refine ⟨sample, ?_, heq⟩
  simp only [point, hstep, hrise, hproduct, bind, Except.bind,
    castInt32_eq (show ratio < 2 ^ 31 by omega), hvalue, hvalue32, hsample]

/-- One output is computed without a trap. -/
theorem interpolate_eq {ratio : Nat} (hpos : 0 < ratio) (hratio : DrawRatio ratio) (last : Int16)
    (buf : List Int16) {i : Nat} (hi : i < buf.length * ratio) :
    ∃ sample, interpolate ratio last buf i = .ok sample ∧ sample.toInt = line ratio last buf i := by
  have hindex : i / ratio < buf.length := Nat.div_lt_of_lt_mul (by rwa [Nat.mul_comm] at hi)
  have hcur : sampleOf buf (i / ratio) = .ok ((last :: buf).getD (i / ratio + 1) 0) := by
    simp [sampleOf, hindex]
  have hprev : prevOf last buf (i / ratio) = .ok ((last :: buf).getD (i / ratio) 0) := by
    unfold prevOf
    cases hk : i / ratio with
    | zero => simp
    | succ k =>
        have hlt : k < buf.length := by omega
        simp [sampleOf, hlt]
  obtain ⟨sample, hpoint, hvalue⟩ := point_eq (Nat.mod_lt i hpos) hratio
    (fits16_sampleAt last buf (i / ratio)) (fits16_sampleAt last buf (i / ratio + 1))
  refine ⟨sample, ?_, hvalue⟩
  simp only [interpolate, hprev, hcur, bind, Except.bind]
  exact hpoint

/-! ### Cutting the source -/

theorem sampleAt_append_left {first : Int16} {source : List Int16} (more : List Int16) {k : Nat}
    (hk : k ≤ source.length) : sampleAt first (source ++ more) k = sampleAt first source k := by
  have hlt : k < (first :: source).length := by simpa using Nat.lt_succ_of_le hk
  simp only [sampleAt, ← List.cons_append]
  rw [List.getD_append _ _ _ _ hlt]

theorem sampleAt_append_right {first last : Int16} {source : List Int16} (more : List Int16) (k : Nat)
    (hlast : last.toInt = sampleAt first source source.length) :
    sampleAt first (source ++ more) (source.length + k) = sampleAt last more k := by
  cases k with
  | zero => exact (sampleAt_append_left more (Nat.le_refl _)).trans hlast.symm
  | succ k =>
      have hright := List.getD_append_right source more (0 : Int16) (source.length + k) (by omega)
      rw [Nat.add_sub_cancel_left] at hright
      exact congrArg Int16.toInt hright

/-- The outputs over a source are those over its front, and those over the rest from the last sample
of the front. -/
theorem line_append {ratio : Nat} (hpos : 0 < ratio) {first last : Int16} (source more : List Int16)
    (hlast : last.toInt = sampleAt first source source.length) :
    (List.range ((source ++ more).length * ratio)).map (line ratio first (source ++ more)) =
      (List.range (source.length * ratio)).map (line ratio first source) ++
        (List.range (more.length * ratio)).map (line ratio last more) := by
  rw [List.length_append, Nat.add_mul, List.range_add, List.map_append, List.map_map]
  congr 1
  · refine List.map_congr_left fun i hi => ?_
    have hindex : i / ratio < source.length :=
      Nat.div_lt_of_lt_mul (by rw [Nat.mul_comm]; exact List.mem_range.mp hi)
    simp only [line]
    rw [sampleAt_append_left more (Nat.le_of_lt hindex), sampleAt_append_left more hindex]
  · refine List.map_congr_left fun i _ => ?_
    have hdiv : (source.length * ratio + i) / ratio = source.length + i / ratio := by
      rw [Nat.mul_comm, Nat.mul_add_div hpos]
    have hmod : (source.length * ratio + i) % ratio = i % ratio := by
      rw [Nat.mul_comm, Nat.mul_add_mod]
    simp only [Function.comp, line, hdiv, hmod, Nat.add_assoc]
    rw [sampleAt_append_right more _ hlast, sampleAt_append_right more _ hlast]

/-! ### Reads -/

/-- A stream with what it took from the device and what it delivered since it was opened. -/
structure InTrack where
  stream : In
  /-- The sample that the first line starts at. -/
  first : Int16
  source : List Int16
  delivered : List Int16

inductive InOp
  | read (read : Read)
  /-- Standby, after which the stream is opened at a rate of the device. -/
  | reopen (hwRate : Nat)

def InTrack.step (track : InTrack) : InOp → Except Trap InTrack
  | .read read => do
      let result ← inRead track.stream read
      return { track with
        stream := result.stream
        source := track.source ++ result.source
        delivered := track.delivered ++ result.delivered }
  | .reopen hwRate =>
      let stream := { track.stream with hwRate := hwRate }
      return ⟨stream, stream.scoLast, [], []⟩

def InTrack.steps (track : InTrack) (ops : List InOp) : Except Trap InTrack :=
  ops.foldlM InTrack.step track

def InTrack.ratio (track : InTrack) : Nat := track.stream.rate / track.stream.hwRate

/-- A stream as it is made. -/
def InTrack.opened (rate hwRate : Nat) : InTrack := ⟨⟨rate, hwRate, 0, 0⟩, 0, [], []⟩

/-- **Output `i` is the point of the line between the samples around it**, and lies between them. -/
structure Drawn (track : InTrack) : Prop where
  length : track.delivered.length = track.source.length * track.ratio
  value : ∀ i sample, track.delivered[i]? = some sample →
    sample.toInt = line track.ratio track.first track.source i
  between : ∀ i sample, track.delivered[i]? = some sample →
    min (sampleAt track.first track.source (i / track.ratio))
        (sampleAt track.first track.source (i / track.ratio + 1)) ≤ sample.toInt ∧
      sample.toInt ≤ max (sampleAt track.first track.source (i / track.ratio))
        (sampleAt track.first track.source (i / track.ratio + 1))

/-- What a read goes on from. -/
structure Carries (track : InTrack) : Prop where
  delivered : track.delivered.map Int16.toInt =
    (List.range (track.source.length * track.ratio)).map (line track.ratio track.first track.source)
  last : track.stream.scoLast.toInt = sampleAt track.first track.source track.source.length
  ratio : track.source ≠ [] → 0 < track.ratio

theorem Carries.drawn {track : InTrack} (h : Carries track) : Drawn track := by
  have hlength : track.delivered.length = track.source.length * track.ratio := by
    simpa using congrArg List.length h.delivered
  have hvalue : ∀ i sample, track.delivered[i]? = some sample →
      sample.toInt = line track.ratio track.first track.source i := by
    intro i sample hsample
    obtain ⟨hlt, -⟩ := List.getElem?_eq_some_iff.mp hsample
    have hentry := congrArg (·[i]?) h.delivered
    simp only [List.getElem?_map, hsample, Option.map_some,
      List.getElem?_range (show i < track.source.length * track.ratio by omega)] at hentry
    exact Option.some.inj hentry
  refine ⟨hlength, hvalue, fun i sample hsample => ?_⟩
  obtain ⟨hlt, -⟩ := List.getElem?_eq_some_iff.mp hsample
  have hsome : track.source ≠ [] := by
    intro hnone
    simp [hnone] at hlength
    simp [hlength] at hlt
  rw [hvalue i sample hsample]
  exact line_between _ (h.ratio hsome) _ _ _

theorem bind_eq_ok {α β : Type} {p : Except Trap α} {f : α → Except Trap β} {b : β} :
    p >>= f = .ok b ↔ ∃ a, p = .ok a ∧ f a = .ok b := by
  cases p <;> simp [bind, Except.bind]

theorem mapM_eq_ok {β γ : Type} {f : Nat → Except Trap β} {g : Nat → γ} (view : β → γ)
    (indices : List Nat) (h : ∀ i ∈ indices, ∃ b, f i = .ok b ∧ view b = g i) :
    ∃ bs, indices.mapM f = .ok bs ∧ bs.map view = indices.map g := by
  induction indices with
  | nil => exact ⟨[], rfl, rfl⟩
  | cons i indices ih =>
      obtain ⟨b, hb, hview⟩ := h i List.mem_cons_self
      obtain ⟨bs, hbs, hviews⟩ := ih fun j hj => h j (List.mem_cons_of_mem _ hj)
      exact ⟨b :: bs, by simp [List.mapM_cons, hb, hbs, bind, Except.bind, pure, Except.pure],
        by simp [hview, hviews]⟩

/-- What a loop delivers was computed at every index. -/
theorem mapM_ok {β : Type} {f : Nat → Except Trap β} {indices : List Nat} {bs : List β}
    (h : indices.mapM f = .ok bs) : ∀ i ∈ indices, ∃ b, f i = .ok b := by
  induction indices generalizing bs with
  | nil => simp
  | cons i indices ih =>
      simp only [List.mapM_cons, bind_eq_ok] at h
      obtain ⟨b, hb, rest, hrest, -⟩ := h
      intro j hj
      obtain rfl | hj := List.mem_cons.mp hj
      · exact ⟨b, hb⟩
      · exact ih hrest j hj

/-- The guards of `in_read` refuse a read, or the device is asked for `src` frames. -/
theorem inRead_cases (stream : In) (read : Read) {ratio src : Nat}
    (hratio : stream.rate / stream.hwRate = ratio) (hsrc : read.frames / ratio = src) :
    (∃ error, inRead stream read = .ok ⟨error, stream, [], []⟩) ∨
      0 < ratio ∧ ∃ frames, inRead stream read =
        if (pcmTransferFrames true read.answers src 2).1 ≠ 0 then
          .ok ⟨some (if (pcmTransferFrames true read.answers src 2).1 < 0 then
            (pcmTransferFrames true read.answers src 2).1 else eio),
            { stream with scoInFrames := frames }, [], []⟩
        else do
          let buf := (List.range src).map read.data
          let delivered ← (List.range (src * ratio)).mapM (interpolate ratio stream.scoLast buf)
          let last := if src = 0 then stream.scoLast else buf.getD (src - 1) 0
          return ⟨none, { stream with scoInFrames := frames, scoLast := last }, buf, delivered⟩ := by
  subst hsrc hratio
  by_cases hnone : read.frames = 0
  · exact .inl ⟨_, by simp [inRead, hnone]; rfl⟩
  by_cases hrates : stream.hwRate = 0 ∨ stream.rate < stream.hwRate ∨
      stream.rate % stream.hwRate ≠ 0
  · exact .inl ⟨_, by simp only [inRead, if_neg hnone]; rw [if_pos hrates]⟩
  by_cases hodd : read.frames % (stream.rate / stream.hwRate) ≠ 0
  · exact .inl ⟨_, by simp only [inRead, if_neg hnone]; rw [if_neg hrates, if_pos hodd]⟩
  by_cases halloc : (stream.scoInFrames < read.frames / (stream.rate / stream.hwRate) &&
      !read.alloc) = true
  · exact .inl ⟨_, by
      simp only [inRead, if_neg hnone]
      rw [if_neg hrates, if_neg hodd]
      exact if_pos halloc⟩
  · refine .inr ⟨Nat.div_pos (by omega) (by omega),
      if stream.scoInFrames < read.frames / (stream.rate / stream.hwRate) then
        read.frames / (stream.rate / stream.hwRate) else stream.scoInFrames, ?_⟩
    simp only [inRead, if_neg hnone]
    rw [if_neg hrates, if_neg hodd]
    exact if_neg halloc

/-- **One read**: it fails and delivers nothing, or it goes on with the line. -/
theorem read_carries {track : InTrack} (h : Carries track) (hratio : DrawRatio track.ratio)
    (read : Read) :
    ∃ track', track.step (.read read) = .ok track' ∧ Carries track' ∧
      track'.ratio = track.ratio ∧ track'.stream.rate = track.stream.rate := by
  have hidle : ∀ (error : Option Int) (frames : Nat),
      inRead track.stream read =
        .ok ⟨error, { track.stream with scoInFrames := frames }, [], []⟩ →
      ∃ track', track.step (.read read) = .ok track' ∧ Carries track' ∧
        track'.ratio = track.ratio ∧ track'.stream.rate = track.stream.rate := by
    intro error frames hread
    refine ⟨{ track with stream := { track.stream with scoInFrames := frames } }, ?_,
      ⟨h.delivered, h.last, h.ratio⟩, rfl, rfl⟩
    simp [InTrack.step, hread, bind, Except.bind, pure, Except.pure]
  obtain ⟨src, hsrc⟩ : ∃ src, read.frames / track.ratio = src := ⟨_, rfl⟩
  obtain ⟨error, hread⟩ | ⟨hpos, frames, hread⟩ := inRead_cases track.stream read rfl hsrc
  · exact hidle error track.stream.scoInFrames hread
  by_cases hret : (pcmTransferFrames true read.answers src 2).1 ≠ 0
  · exact hidle _ frames (by rw [hread, if_pos hret])
  rw [if_neg hret] at hread
  -- the device gave all it was asked for
  let buf := (List.range src).map read.data
  have hlen : buf.length = src := by simp [buf]
  obtain ⟨delivered, hrun, hview⟩ := mapM_eq_ok
    (f := interpolate track.ratio track.stream.scoLast buf) Int16.toInt
    (g := line track.ratio track.stream.scoLast buf) (List.range (src * track.ratio))
    fun i hi => interpolate_eq hpos hratio _ _ (by rw [hlen]; exact List.mem_range.mp hi)
  let last := if src = 0 then track.stream.scoLast else buf.getD (src - 1) 0
  have hstep : inRead track.stream read = .ok ⟨none,
      { track.stream with scoInFrames := frames, scoLast := last }, buf, delivered⟩ := by
    rw [hread]
    exact bind_eq_ok.mpr ⟨delivered, hrun, rfl⟩
  refine ⟨⟨{ track.stream with scoInFrames := frames, scoLast := last }, track.first,
    track.source ++ buf, track.delivered ++ delivered⟩, ?_, ⟨?_, ?_, fun _ => hpos⟩, rfl, rfl⟩
  · simp [InTrack.step, hstep, bind, Except.bind, pure, Except.pure]
  · have hline := line_append hpos track.source buf h.last
    rw [List.map_append, hview, h.delivered]
    rw [hlen] at hline
    exact hline.symm
  · have hend := sampleAt_append_right buf src h.last
    rw [List.length_append, hlen]
    refine Eq.trans ?_ hend.symm
    simp only [last, sampleAt]
    cases hk : src with
    | zero => simp
    | succ k => simp

def InOp.Fits (rate : Nat) : InOp → Prop
  | .read _ => True
  | .reopen hwRate => DrawRatio (rate / hwRate)

/-- **A run of reads**: nothing traps, and every output is on its line. -/
theorem reads_carry {track : InTrack} (ops : List InOp) (h : Carries track)
    (hratio : DrawRatio track.ratio) (hops : ∀ op ∈ ops, op.Fits track.stream.rate) :
    ∃ track', track.steps ops = .ok track' ∧ Carries track' := by
  induction ops generalizing track with
  | nil => exact ⟨track, rfl, h⟩
  | cons op ops ih =>
      have hlater : ∀ op ∈ ops, op.Fits track.stream.rate :=
        fun op hop => hops op (List.mem_cons_of_mem _ hop)
      have hone : ∃ track', track.step op = .ok track' ∧ Carries track' ∧
          DrawRatio track'.ratio ∧ track'.stream.rate = track.stream.rate := by
        cases op with
        | read read =>
            obtain ⟨track', hstep, hcarries, hsame, hrate⟩ := read_carries h hratio read
            exact ⟨track', hstep, hcarries, by rwa [hsame], hrate⟩
        | reopen hwRate =>
            refine ⟨⟨{ track.stream with hwRate := hwRate }, track.stream.scoLast, [], []⟩, rfl,
              ⟨by simp, by simp [sampleAt], fun hsome => absurd rfl hsome⟩,
              hops (.reopen hwRate) List.mem_cons_self, rfl⟩
      obtain ⟨track₁, hstep, hcarries, hratio₁, hrate⟩ := hone
      obtain ⟨track₂, hrun, hend⟩ := ih hcarries hratio₁ (by rwa [hrate])
      exact ⟨track₂, by simpa [InTrack.steps, List.foldlM_cons, hstep, bind, Except.bind] using hrun,
        hend⟩

/-! ### Wider ratios -/

/-- **A product does not fit for any other ratio**: the step from the lowest sample to the highest. -/
theorem point_overflows {ratio turn : Nat} {prev cur : Int} (hturn : turn = 32768)
    (hrise : cur - prev = 65535) : point ratio turn prev cur = .error .overflow := by
  have hstep : castInt32 turn + 1 = ((turn + 1 : Nat) : Int) := by
    rw [castInt32_eq (by omega)]
    omega
  have hfits : int32 (cur - prev) = .ok (cur - prev) := int32_eq_ok ⟨by omega, by omega⟩
  have hproduct : int32 ((cur - prev) * (turn + 1 : Nat)) = .error .overflow := by
    rw [hrise, int32, if_neg (by omega)]
  simp only [point, hstep, hfits, hproduct, bind, Except.bind]

/-- Two samples as far apart as they can be. -/
def farApart : Read := ⟨0, true, [], fun k => if k = 0 then -32768 else 32767⟩

/-- The interpolation leaves the range of 32 bits when the ratio is too large. -/
theorem read_overflows {rate hwRate turn : Nat} (hturn : turn = 32768) (hhw : 0 < hwRate)
    (hwhole : rate % hwRate = 0) (hratio : turn < rate / hwRate) (result : ReadResult) :
    inRead (InTrack.opened rate hwRate).stream { farApart with frames := 2 * (rate / hwRate) } ≠
      .ok result := by
  obtain ⟨ratio, hratioEq⟩ : ∃ ratio, rate / hwRate = ratio := ⟨_, rfl⟩
  have hle : hwRate ≤ rate := Nat.le_of_not_lt fun hlt => by
    rw [Nat.div_eq_of_lt hlt] at hratio
    omega
  intro hok
  have hpos : 0 < ratio := by omega
  have hread : inRead (InTrack.opened rate hwRate).stream
      { farApart with frames := 2 * (rate / hwRate) } = do
        let delivered ← (List.range (2 * ratio)).mapM (interpolate ratio 0 [-32768, 32767])
        return ⟨none, ⟨rate, hwRate, 2, 32767⟩, [-32768, 32767], delivered⟩ := by
    have hdiv : 2 * ratio / ratio = 2 := Nat.mul_div_cancel _ hpos
    have hrates : ¬(hwRate = 0 ∨ rate < hwRate ∨ rate % hwRate ≠ 0) := by omega
    have hnone : 2 * ratio ≠ 0 := by omega
    have heven : ¬(2 * ratio % ratio ≠ 0) := by simp
    have htransfer : pcmTransferFrames true [] 2 2 = (0, 2) := by decide
    simp only [inRead, InTrack.opened, farApart, hratioEq, if_neg hnone, hdiv]
    rw [if_neg hrates, if_neg heven]
    simp [htransfer, List.range_succ]
  rw [hread] at hok
  obtain ⟨delivered, hrun, -⟩ := bind_eq_ok.mp hok
  obtain ⟨sample, hsample⟩ := mapM_ok hrun (ratio + turn) (List.mem_range.mpr (by omega))
  have hdiv : (ratio + turn) / ratio = 1 := by
    rw [Nat.add_div_left _ hpos, Nat.div_eq_of_lt (by omega)]
  have hmod : (ratio + turn) % ratio = turn := by
    rw [Nat.add_mod_left, Nat.mod_eq_of_lt (by omega)]
  have hpoint : point ratio turn (-32768 : Int16).toInt (32767 : Int16).toInt = .error .overflow :=
    point_overflows hturn (by decide)
  have hbad : interpolate ratio 0 [-32768, 32767] (ratio + turn) = .error .overflow := by
    have hprev : prevOf 0 [-32768, 32767] 1 = .ok (-32768) := rfl
    have hcur : sampleOf [-32768, 32767] 1 = .ok 32767 := rfl
    simp only [interpolate, hdiv, hmod, hprev, hcur, bind, Except.bind]
    exact hpoint
  rw [hbad] at hsample
  cases hsample

/-! ### The conversion as a whole -/

/-- **The conversion does not depend on how the streams are cut.** Playback at ratios up to 65536:
in every run nothing traps, what has left in packets of 30 and what is staged are the means of the
groups of the whole stream, and the accumulator holds the rest, exactly when no transfer breaks off.
Capture at ratios up to 32768: in every run nothing traps and every output is on the line between
the samples around it. At any wider ratio there is a buffer, or a read, that overflows. -/
theorem sco_rate_conversion (ratio rate hwRate : Nat) :
    (∀ ops, PlayRatio ratio → (∀ op ∈ ops, op.Fits) →
      (LawfulRun (Track.opened ratio) ops ↔ cleanRun (Track.opened ratio) ops = true)) ∧
    (65536 < ratio → ∃ buffer, outWrite (opened ratio) buffer = .error .overflow) ∧
    (∀ ops, DrawRatio (rate / hwRate) → (∀ op ∈ ops, InOp.Fits rate op) →
      ∃ track, (InTrack.opened rate hwRate).steps ops = .ok track ∧ Drawn track) ∧
    (0 < hwRate → rate % hwRate = 0 → 32768 < rate / hwRate →
      ∃ read, ∀ result, inRead (InTrack.opened rate hwRate).stream read ≠ .ok result) := by
  refine ⟨fun ops hratio hops => ?_, fun hratio => ?_, fun ops hratio hops => ?_,
    fun hhw hwhole hratio => ?_⟩
  · exact lawfulRun_iff ops (lawful_empty ratio 0) hratio hops
  · exact ⟨_, write_overflows rfl hratio⟩
  · have hstart : Carries (InTrack.opened rate hwRate) :=
      ⟨by simp [InTrack.opened], rfl, fun hsome => absurd rfl hsome⟩
    obtain ⟨track, hrun, hcarries⟩ := reads_carry ops hstart hratio hops
    exact ⟨track, hrun, hcarries.drawn⟩
  · exact ⟨_, read_overflows rfl hhw hwhole hratio⟩

/-- Frames of one channel, each with a value of its own. -/
def ramp (n : Nat) : List Frame := (List.range n).map fun k => ⟨Int16.ofNat k, none⟩

/-- At ratio 3, the device takes 30 of 60 samples and fails; another frame is written later. -/
def brokenOff : List Op :=
  [.write ⟨ramp 180, none, true, true, [⟨30, 0⟩, ⟨-5, -5⟩]⟩, .write ⟨ramp 1, none, true, true, []⟩]

/-- A check of the track that a run leaves. -/
def endsIn (check : Track → Bool) : Except Trap Track → Bool
  | .ok track => check track
  | .error _ => false

/-- A packet of samples is sent twice: 90 samples leave for the 60 of the stream. -/
theorem brokenOff_sends_twice :
    (∃ track, brokenOff.foldlM Track.step (Track.opened 3) = .ok track ∧
      track.sent.take 30 = (track.sent.drop 30).take 30 ∧ track.sent.length = 90 ∧
      ((wholeOf 3 track.taken).samples 3).length = 60) ∧
    ¬LawfulRun (Track.opened 3) brokenOff := by
  constructor
  · have hrun : endsIn (fun track => decide (track.sent.take 30 = (track.sent.drop 30).take 30 ∧
        track.sent.length = 90 ∧ ((wholeOf 3 track.taken).samples 3).length = 60))
        (brokenOff.foldlM Track.step (Track.opened 3)) = true := by decide +kernel
    cases h : brokenOff.foldlM Track.step (Track.opened 3) with
    | error trap => simp [h, endsIn] at hrun
    | ok track => exact ⟨track, rfl, by simpa [h, endsIn] using hrun⟩
  · have hops : ∀ op ∈ brokenOff, op.Fits := by simp [brokenOff, Op.Fits]
    have hbroken : cleanRun (Track.opened 3) brokenOff = false := by decide +kernel
    intro hlawful
    have hclean := (lawfulRun_iff brokenOff (lawful_empty 3 0) ⟨by decide, by decide⟩ hops).mp hlawful
    exact Bool.false_ne_true (hbroken.symm.trans hclean)

/-- Two buffers and a drain that the device takes piece by piece. -/
def piecewise : List Op :=
  [.write ⟨ramp 100, none, true, true, [⟨7, 0⟩, ⟨-32, 0⟩, ⟨20, 0⟩]⟩,
    .write ⟨ramp 5, none, true, true, []⟩, .tail true []]

/-- Two reads, of which the device answers the first one piece by piece. -/
def captured : List InOp :=
  [.read ⟨6, true, [⟨1, 0⟩, ⟨1, 0⟩], fun k => if k = 0 then 30 else -60⟩,
    .read ⟨3, true, [], fun _ => -57⟩]

/-- Both directions at ratio 3, and the ratios behind the bounds. -/
theorem sco_rate_conversion_piecewise :
    LawfulRun (Track.opened 3) piecewise ∧
      (∃ track, (InTrack.opened 48000 16000).steps captured = .ok track ∧ Drawn track ∧
        track.delivered = [10, 20, 30, 0, -30, -60, -59, -58, -57]) ∧
      (∃ buffer, outWrite (opened 65537) buffer = .error .overflow) ∧
      ∃ read, ∀ result, inRead (InTrack.opened 32769 1).stream read ≠ .ok result := by
  refine ⟨?_, ?_, (sco_rate_conversion 65537 0 0).2.1 (by decide),
    (sco_rate_conversion 0 32769 1).2.2.2 (by decide) (by decide) (by decide)⟩
  · exact ((sco_rate_conversion 3 0 0).1 piecewise ⟨by decide, by decide⟩
      (by simp [piecewise, Op.Fits])).mpr (by decide +kernel)
  · obtain ⟨track, hrun, hdrawn⟩ := (sco_rate_conversion 0 48000 16000).2.2.1 captured
      (show 48000 / 16000 ≤ 32768 by decide) (by simp [captured, InOp.Fits])
    have hdelivered : ((InTrack.opened 48000 16000).steps captured).toOption.map (·.delivered) =
        some [10, 20, 30, 0, -30, -60, -59, -58, -57] := by decide +kernel
    rw [hrun] at hdelivered
    exact ⟨track, hrun, hdrawn, Option.some.inj hdelivered⟩

end Mindone.Audio.Sco
