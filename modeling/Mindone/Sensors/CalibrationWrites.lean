import Mathlib.Algebra.Order.Ring.Int
import Mindone.Sensors.CalibrationStore

/-!
# Mindone.Sensors.CalibrationWrites

The values that the kernel reports are written to the calibration files, by the thread that reports
them or later by the writer thread (`persistRegion`, `writePending` and `persistenceLoop` of
`sensors-hf/CalibrationStore.cpp`). Each of their turns is about one cached region and holds the
mutex; `Turn` says all that a turn can do, and **every rule about the writes is read off it**.

The clock and the outcomes of the writes are in the state, with the attempts that were made.
-/

namespace Mindone.Sensors

abbrev Key := Region × Nat

/-- An attempt to write a region's file. -/
structure Attempt where
  key : Key
  timeMs : Int
  values : List Int32
  ok : Bool
  stopping : Bool
  deriving DecidableEq

structure Store where
  caches : Caches
  stopping : Bool
  /-- The last reading of the clock. -/
  clockMs : Int
  /-- How much the clock goes on before each of the next readings. -/
  ticks : List Nat
  /-- How the next writes end. -/
  outcomes : List Bool
  /-- The attempts so far, the last one first. -/
  attempts : List Attempt

namespace Store

variable (s : Store)

def entry (key : Key) : CachedRegion := s.caches.entry key

def put (key : Key) (cache : CachedRegion) : Store :=
  { s with caches := Function.update s.caches key (some cache) }

/-- The clock is read. -/
def tick : Store := { s with clockMs := s.clockMs + s.ticks.headD 0, ticks := s.ticks.tail }

/-- `writeIntArray` of the cached values. -/
def attempt (key : Key) : Store :=
  { s with
    outcomes := s.outcomes.tail
    attempts :=
      ⟨key, s.clockMs, (s.entry key).values, s.outcomes.headD true, s.stopping⟩ :: s.attempts }

end Store

/-- The file and the key for a region, if there are any. -/
def SensorLayout.fileFor (layout : SensorLayout) : Region → Option (String × String)
  | .bias => layout.biasFile.bind fun file => layout.biasKey.map fun key => (file, key)
  | .cali => layout.caliFile.bind fun file => layout.caliKey.map fun key => (file, key)
  | .temp => some (layout.name ++ "_temp.json", layout.name ++ "_temp")

/-- What `writePending` leaves in the cache when the write succeeds. -/
def CachedRegion.persisted (cache : CachedRegion) : CachedRegion :=
  { cache with persistedValues := cache.values, havePersistedValue := true }

def writePending (layout : SensorLayout) (region : Region) (s : Store) : Store :=
  let key : Key := (region, layout.sensorType)
  let s := s.tick
  let s := s.put key { s.entry key with pending := false, lastAttemptMs := s.clockMs }
  if layout.fileFor region = none then s
  else
    let written := s.attempt key
    if s.outcomes.headD true then written.put key (s.entry key).persisted else written

/-- Whether the values would have to be written. -/
def CachedRegion.differs (cache : CachedRegion) (values : List Int32) : Bool :=
  !cache.havePersistedValue || cache.persistedValues != values

/-- The cache with values that were reported. -/
def CachedRegion.reported (cache : CachedRegion) (values : List Int32) : CachedRegion :=
  { cache with
    values := values
    haveValue := true
    pending := !allZero values && cache.differs values }

def persistRegion (layout : SensorLayout) (region : Region) (newValues : List Int32) (s : Store) :
    Store :=
  let key : Key := (region, layout.sensorType)
  let cache := s.entry key
  let unchanged := cache.haveValue && cache.values == newValues
  if unchanged && (cache.pending || allZero newValues ||
      (cache.havePersistedValue && cache.persistedValues == newValues)) then s.put key cache
  else
    let cache := cache.reported newValues
    let s := s.put key cache
    if !cache.pending then s
    else if s.tick.clockMs - cache.lastAttemptMs ≥ kMinRewriteIntervalMs then
      writePending layout region s.tick
    else s.tick

/-- `BIAS_ACTION`, `CALI_ACTION` and `TEMP_ACTION` -/
def actionRegion : Nat → Option Region
  | 2 => some .bias
  | 3 => some .cali
  | 4 => some .temp
  | _ => none

/-- `onKernelEvent` -/
def onKernelEvent (sensorType action : Nat) (words : Vector Int32 16) (s : Store) : Store :=
  match layoutFor sensorType, actionRegion action with
  | some layout, some region =>
      if (layout.region region).length > 0 then
        persistRegion layout region (words.toList.take ((layout.region region).length / 4)) s
      else s
  | _, _ => s

/-- What the stopping writer looks for in a region. -/
def CachedRegion.recheck (cache : CachedRegion) : CachedRegion :=
  { cache with pending := cache.haveValue && !allZero cache.values && cache.differs cache.values }

/-- One turn of `persistenceLoop`. -/
def writerTurn (s : Store) (turn : SensorLayout × Region) : Store :=
  let key : Key := (turn.2, turn.1.sensorType)
  match s.caches key with
  | none => s
  | some cache =>
      let cache := if s.stopping then cache.recheck else cache
      let s := s.put key cache
      if !cache.pending then s
      else if s.stopping then writePending turn.1 turn.2 s
      else if s.tick.clockMs ≥ cache.lastAttemptMs + kMinRewriteIntervalMs then
        writePending turn.1 turn.2 s.tick
      else s.tick

/-- The regions in the order of the loop. -/
def writerTurns : List (SensorLayout × Region) :=
  allLayouts.flatMap fun layout => [(layout, .bias), (layout, .cali), (layout, .temp)]

/-- A pass of the writer thread, between two waits. -/
def writerPass (s : Store) : Store := writerTurns.foldl writerTurn s

inductive Step
  | buildPayload (sensorType : Nat) (reads : Reads)
  | kernelEvent (sensorType action : Nat) (words : Vector Int32 16)
  | writerPass
  | stop

def Store.step (s : Store) : Step → Store
  | .buildPayload sensorType reads =>
      match layoutFor sensorType with
      | none => s
      | some layout => { s with caches := (Plain.buildPayload layout reads s.caches).2 }
  | .kernelEvent sensorType action words => onKernelEvent sensorType action words s
  | .writerPass => Sensors.writerPass s
  | .stop => { s with stopping := true }

def Store.run (s : Store) (steps : List Step) : Store := steps.foldl Store.step s

/-- The store at its start. -/
def Store.start (ticks : List Nat) (outcomes : List Bool) : Store :=
  ⟨fun _ => none, false, 0, ticks, outcomes, []⟩

/-! ### What a turn can do -/

section Turns

variable {key k : Key} {s s₀ s' : Store} {c : CachedRegion}

/-- What holds of a cached region. -/
structure CachedRegion.Sound (c : CachedRegion) : Prop where
  pending : c.pending = true →
    c.haveValue = true ∧ allZero c.values = false ∧ c.values ≠ c.persistedValues
  fresh : c.havePersistedValue = false → c.persistedValues = []

theorem CachedRegion.Sound.empty : CachedRegion.Sound {} := ⟨nofun, fun _ => rfl⟩

/-- Values that have to be written are not those of the file. -/
theorem CachedRegion.Sound.ne_persisted (hc : c.Sound) {values : List Int32}
    (hlive : allZero values = false) (hdiffers : c.differs values = true) :
    values ≠ c.persistedValues := by
  rintro rfl
  cases hhave : c.havePersistedValue with
  | true => simp [CachedRegion.differs, hhave] at hdiffers
  | false => simp [hc.fresh hhave, allZero] at hlive

/-- A successful write. -/
theorem CachedRegion.Sound.persisted (hpending : c.pending = false) : c.persisted.Sound :=
  ⟨fun h => absurd (hpending.symm.trans h) (by decide), nofun⟩

@[simp] theorem entry_put_self (s : Store) (key : Key) (c : CachedRegion) :
    (s.put key c).entry key = c := by
  simp [Store.put, Store.entry, Caches.entry]

@[simp] theorem entry_tick (s : Store) (key : Key) : s.tick.entry key = s.entry key := rfl

theorem caches_put_of_ne (s : Store) (c : CachedRegion) (h : k ≠ key) :
    (s.put key c).caches k = s.caches k := Function.update_of_ne h _ _

theorem entry_eq_of_caches (h : s'.caches k = s.caches k) : s'.entry k = s.entry k := by
  simp [Store.entry, Caches.entry, h]

/-- The cache has been changed, and nothing has been written. -/
structure Prepared (key : Key) (s s' : Store) : Prop where
  clock : s.clockMs ≤ s'.clockMs
  stopping : s'.stopping = s.stopping
  others : ∀ k, k ≠ key → s'.caches k = s.caches k
  attempts : s'.attempts = s.attempts
  last : (s'.entry key).lastAttemptMs = (s.entry key).lastAttemptMs
  persistedValues : (s'.entry key).persistedValues = (s.entry key).persistedValues
  havePersistedValue : (s'.entry key).havePersistedValue = (s.entry key).havePersistedValue
  sound : (s'.entry key).Sound

/-- A write was attempted. -/
structure Wrote (key : Key) (s : Store) (a : Attempt) (s' : Store) : Prop where
  attempts : s'.attempts = a :: s.attempts
  about : a.key = key
  values : a.values = (s'.entry key).values
  live : allZero a.values = false
  stopping : a.stopping = s.stopping
  spaced : s.stopping = false → (s.entry key).lastAttemptMs + kMinRewriteIntervalMs ≤ a.timeMs
  time : a.timeMs = (s'.entry key).lastAttemptMs
  late : (s.entry key).lastAttemptMs ≤ a.timeMs
  /-- A failed write leaves what has been persisted, which is something else. -/
  failed : a.ok = false →
    (s'.entry key).persistedValues = (s.entry key).persistedValues ∧
    (s'.entry key).havePersistedValue = (s.entry key).havePersistedValue ∧
    (s'.entry key).haveValue = true ∧ a.values ≠ (s'.entry key).persistedValues
  stored : a.ok = true → (s'.entry key).persistedValues = a.values

/-- No write was attempted. -/
structure Idle (key : Key) (s s' : Store) : Prop where
  attempts : s'.attempts = s.attempts
  last : (s.entry key).lastAttemptMs ≤ (s'.entry key).lastAttemptMs
  persistedValues : (s'.entry key).persistedValues = (s.entry key).persistedValues
  havePersistedValue : (s'.entry key).havePersistedValue = (s.entry key).havePersistedValue

/-- **All that a turn about one region can do.** -/
structure Turn (key : Key) (s s' : Store) : Prop where
  clock : s.clockMs ≤ s'.clockMs
  stopping : s'.stopping = s.stopping
  others : ∀ k, k ≠ key → s'.caches k = s.caches k
  last : (s'.entry key).lastAttemptMs ≤ s'.clockMs
  sound : (s'.entry key).Sound
  writes : Idle key s s' ∨ ∃ a, Wrote key s a s'

theorem Prepared.tick (h : Prepared key s s') : Prepared key s s'.tick where
  clock := by
    refine h.clock.trans ?_
    show s'.clockMs ≤ s'.clockMs + ((s'.ticks.headD 0 : Nat) : Int)
    omega
  stopping := h.stopping
  others := h.others
  attempts := h.attempts
  last := h.last
  persistedValues := h.persistedValues
  havePersistedValue := h.havePersistedValue
  sound := h.sound

theorem Prepared.turn (h : Prepared key s s') (hclock : (s.entry key).lastAttemptMs ≤ s.clockMs) :
    Turn key s s' where
  clock := h.clock
  stopping := h.stopping
  others := h.others
  last := h.last ▸ hclock.trans h.clock
  sound := h.sound
  writes := .inl ⟨h.attempts, Int.le_of_eq h.last.symm, h.persistedValues, h.havePersistedValue⟩

/-- A change of the cache alone. -/
theorem prepared_put (hlast : c.lastAttemptMs = (s.entry key).lastAttemptMs)
    (hvalues : c.persistedValues = (s.entry key).persistedValues)
    (hhave : c.havePersistedValue = (s.entry key).havePersistedValue) (hc : c.Sound) :
    Prepared key s (s.put key c) where
  clock := Int.le_refl _
  stopping := rfl
  others := fun _ hk => caches_put_of_ne s c hk
  attempts := rfl
  last := by rw [entry_put_self]; exact hlast
  persistedValues := by rw [entry_put_self]; exact hvalues
  havePersistedValue := by rw [entry_put_self]; exact hhave
  sound := by rw [entry_put_self]; exact hc

/-- **`writePending`** of a pending value, when it is time for it. -/
theorem writePending_turn {layout : SensorLayout} {region : Region}
    (h : Prepared (region, layout.sensorType) s₀ s)
    (hclock : (s₀.entry (region, layout.sensorType)).lastAttemptMs ≤ s₀.clockMs)
    (hpending : (s.entry (region, layout.sensorType)).pending = true)
    (hdue : s.stopping = false →
      (s.entry (region, layout.sensorType)).lastAttemptMs + kMinRewriteIntervalMs ≤ s.clockMs) :
    Turn (region, layout.sensorType) s₀ (writePending layout region s) := by
  have ht := h.tick
  unfold writePending
  dsimp only
  generalize (region, layout.sensorType) = key at h hclock hpending hdue ht ⊢
  obtain ⟨hvalue, hlive, hne⟩ := h.sound.pending hpending
  -- the cache before the file is written
  have hcleared : CachedRegion.Sound { s.tick.entry key with
      pending := false, lastAttemptMs := s.tick.clockMs } := ⟨nofun, ht.sound.fresh⟩
  have htick : s.clockMs ≤ s.tick.clockMs := by
    show s.clockMs ≤ s.clockMs + ((s.ticks.headD 0 : Nat) : Int)
    omega
  have hdue' : s₀.stopping = false →
      (s₀.entry key).lastAttemptMs + kMinRewriteIntervalMs ≤ s.tick.clockMs := by
    intro hrunning
    have hle := hdue (h.stopping.trans hrunning)
    rw [h.last] at hle
    exact hle.trans htick
  generalize hs₁ : s.tick.put key { s.tick.entry key with
    pending := false, lastAttemptMs := s.tick.clockMs } = s₁
  have hentry : s₁.entry key = { s.tick.entry key with
      pending := false, lastAttemptMs := s.tick.clockMs } := by
    rw [← hs₁, entry_put_self]
  have hclock₁ : s₁.clockMs = s.tick.clockMs := by rw [← hs₁]; rfl
  have hstopping₁ : s₁.stopping = s₀.stopping := by rw [← hs₁]; exact ht.stopping
  have hattempts₁ : s₁.attempts = s₀.attempts := by rw [← hs₁]; exact ht.attempts
  have hothers₁ : ∀ k, k ≠ key → s₁.caches k = s₀.caches k := by
    intro k hk
    rw [← hs₁, caches_put_of_ne _ _ hk, ht.others k hk]
  have hlast₁ : (s₁.entry key).lastAttemptMs = s₁.clockMs := by rw [hentry, hclock₁]
  have hclock : s₀.clockMs ≤ s₁.clockMs := hclock₁ ▸ ht.clock
  have hsound₁ : (s₁.entry key).Sound := hentry ▸ hcleared
  have hlive₁ : allZero (s₁.entry key).values = false := by rw [hentry]; exact hlive
  have hvalue₁ : (s₁.entry key).haveValue = true := by rw [hentry]; exact hvalue
  have hne₁ : (s₁.entry key).values ≠ (s₁.entry key).persistedValues := by rw [hentry]; exact hne
  have hpersisted₁ : (s₁.entry key).persistedValues = (s₀.entry key).persistedValues := by
    rw [hentry]; exact ht.persistedValues
  have hhave₁ : (s₁.entry key).havePersistedValue = (s₀.entry key).havePersistedValue := by
    rw [hentry]; exact ht.havePersistedValue
  have hlate : (s₀.entry key).lastAttemptMs ≤ s₁.clockMs := Int.le_trans ‹_› hclock
  have hspaced : s₀.stopping = false →
      (s₀.entry key).lastAttemptMs + kMinRewriteIntervalMs ≤ s₁.clockMs := by
    rw [hclock₁]; exact hdue'
  split
  · exact ⟨hclock, hstopping₁, hothers₁, Int.le_of_eq hlast₁, hsound₁,
      .inl ⟨hattempts₁, hlast₁ ▸ hlate, hpersisted₁, hhave₁⟩⟩
  · split
    · -- the write succeeds
      rename_i hok
      refine ⟨hclock, hstopping₁, ?_, ?_, ?_, .inr ⟨⟨key, s₁.clockMs, _, s₁.outcomes.headD true, _⟩, ?_, rfl, ?_, hlive₁, hstopping₁, hspaced, ?_,
        hlate, ?_, ?_⟩⟩
      · intro k hk
        rw [caches_put_of_ne _ _ hk]
        exact hothers₁ k hk
      · rw [entry_put_self]
        exact Int.le_of_eq hlast₁
      · rw [entry_put_self]
        exact CachedRegion.Sound.persisted (by rw [hentry])
      · exact congrArg _ hattempts₁
      · rw [entry_put_self]; rfl
      · rw [entry_put_self]
        exact hlast₁.symm
      · intro hfailed
        exact absurd (hok.symm.trans hfailed) (by decide)
      · intro _
        rw [entry_put_self]; rfl
    · -- the write fails
      rename_i hfailed
      exact ⟨hclock, hstopping₁, hothers₁, Int.le_of_eq hlast₁, hsound₁,
        .inr ⟨⟨key, s₁.clockMs, _, s₁.outcomes.headD true, _⟩, congrArg _ hattempts₁, rfl, rfl, hlive₁, hstopping₁, hspaced, hlast₁.symm,
          hlate, fun _ => ⟨hpersisted₁, hhave₁, hvalue₁, hne₁⟩, fun hok => absurd hok hfailed⟩⟩

theorem Prepared.refl (hsound : (s.entry key).Sound) : Prepared key s s where
  clock := Int.le_refl _
  stopping := rfl
  others := fun _ _ => rfl
  attempts := rfl
  last := rfl
  persistedValues := rfl
  havePersistedValue := rfl
  sound := hsound

theorem CachedRegion.Sound.reported (hc : c.Sound) (values : List Int32) :
    (c.reported values).Sound where
  pending := by
    intro hpending
    simp only [CachedRegion.reported, Bool.and_eq_true, Bool.not_eq_true'] at hpending
    exact ⟨rfl, hpending.1, hc.ne_persisted hpending.1 hpending.2⟩
  fresh := hc.fresh

theorem CachedRegion.Sound.recheck (hc : c.Sound) : c.recheck.Sound where
  pending := by
    intro hpending
    simp only [CachedRegion.recheck, Bool.and_eq_true, Bool.not_eq_true'] at hpending
    exact ⟨hpending.1.1, hpending.1.2, hc.ne_persisted hpending.1.2 hpending.2⟩
  fresh := hc.fresh

/-- **`persistRegion`** is a turn about its region. -/
theorem persistRegion_turn {layout : SensorLayout} {region : Region} (values : List Int32)
    (hsound : (s.entry (region, layout.sensorType)).Sound)
    (hclock : (s.entry (region, layout.sensorType)).lastAttemptMs ≤ s.clockMs) :
    Turn (region, layout.sensorType) s (persistRegion layout region values s) := by
  unfold persistRegion
  dsimp only
  have hreported := hsound.reported values
  have hput : Prepared (region, layout.sensorType) s
      (s.put (region, layout.sensorType) ((s.entry (region, layout.sensorType)).reported values)) :=
    prepared_put rfl rfl rfl hreported
  split
  · exact (prepared_put rfl rfl rfl hsound).turn hclock
  split
  · exact hput.turn hclock
  rename_i hpending
  split
  · rename_i hdue
    refine writePending_turn hput.tick hclock ?_ ?_
    · rw [entry_tick, entry_put_self]
      simpa using hpending
    · intro _
      rw [entry_tick, entry_put_self]
      omega
  · exact hput.tick.turn hclock

/-- **A turn of the writer** about its region. -/
theorem writerTurn_turn {turn : SensorLayout × Region}
    (hsound : (s.entry (turn.2, turn.1.sensorType)).Sound)
    (hclock : (s.entry (turn.2, turn.1.sensorType)).lastAttemptMs ≤ s.clockMs) :
    Turn (turn.2, turn.1.sensorType) s (writerTurn s turn) := by
  unfold writerTurn
  dsimp only
  split
  · exact (Prepared.refl hsound).turn hclock
  · rename_i cache hcache
    have hentry : s.entry (turn.2, turn.1.sensorType) = cache := by
      simp [Store.entry, Caches.entry, hcache]
    have hc : (if s.stopping then cache.recheck else cache).Sound := by
      split
      · exact (hentry ▸ hsound).recheck
      · exact hentry ▸ hsound
    have hput : Prepared (turn.2, turn.1.sensorType) s
        (s.put (turn.2, turn.1.sensorType) (if s.stopping then cache.recheck else cache)) := by
      refine prepared_put ?_ ?_ ?_ hc <;> rw [hentry] <;> split <;> rfl
    generalize (if s.stopping then cache.recheck else cache) = c at hc hput
    split
    · exact hput.turn hclock
    rename_i hpending
    replace hpending : c.pending = true := by simpa using hpending
    split
    · rename_i hstopping
      refine writePending_turn hput hclock (by rwa [entry_put_self]) ?_
      intro hrunning
      exact absurd (hstopping.symm.trans hrunning) (by decide)
    split
    · rename_i hdue
      refine writePending_turn hput.tick hclock (by rwa [entry_tick, entry_put_self]) ?_
      intro _
      rw [entry_tick, entry_put_self]
      exact hdue
    · exact hput.tick.turn hclock

end Turns

/-! ### What is attempted -/

section Attempts

variable {key : Key} {s s' : Store} {c : CachedRegion} {layout : SensorLayout} {region : Region}
  {values : List Int32}

/-- The last thing that was attempted is a write of these values. -/
def Attempted (key : Key) (values : List Int32) (s s' : Store) : Prop :=
  ∃ a, s'.attempts = a :: s.attempts ∧ a.key = key ∧ a.values = values

theorem writePending_attempted (hfile : layout.fileFor region ≠ none) :
    Attempted (region, layout.sensorType) (s.entry (region, layout.sensorType)).values s
      (writePending layout region s) := by
  unfold writePending
  dsimp only
  rw [if_neg hfile]
  have hvalues : ((s.tick.put (region, layout.sensorType) { s.tick.entry (region, layout.sensorType) with
      pending := false, lastAttemptMs := s.tick.clockMs }).entry
        (region, layout.sensorType)).values =
      (s.entry (region, layout.sensorType)).values := by
    rw [entry_put_self]
    rfl
  split
  · exact ⟨_, rfl, rfl, hvalues⟩
  · exact ⟨_, rfl, rfl, hvalues⟩

/-- Values that are reported and are not those of the file are attempted, or are pending. -/
theorem persistRegion_attempted (hfile : layout.fileFor region ≠ none)
    (hlive : allZero values = false)
    (hdiffers : (s.entry (region, layout.sensorType)).differs values = true) :
    Attempted (region, layout.sensorType) values s (persistRegion layout region values s) ∨
    ((persistRegion layout region values s).entry (region, layout.sensorType)).pending = true ∧
    ((persistRegion layout region values s).entry (region, layout.sensorType)).values = values := by
  unfold persistRegion
  dsimp only
  split
  · -- nothing has changed, so that the value has been pending
    rename_i hunchanged
    simp only [CachedRegion.differs, Bool.or_eq_true, Bool.not_eq_true', bne_iff_ne] at hdiffers
    simp only [Bool.and_eq_true, Bool.or_eq_true, beq_iff_eq, hlive] at hunchanged
    obtain ⟨⟨-, hvalues⟩, (hpending | hzero) | hwritten⟩ := hunchanged
    · right
      rw [entry_put_self]
      exact ⟨hpending, hvalues⟩
    · exact absurd hzero (by decide)
    · rcases hdiffers with hhave | hne
      · exact absurd (hhave.symm.trans hwritten.1) (by decide)
      · exact absurd hwritten.2 hne
  · have hpending : ((s.entry (region, layout.sensorType)).reported values).pending = true := by
      simp [CachedRegion.reported, hlive, hdiffers]
    simp only [hpending, Bool.not_true, Bool.false_eq_true, if_false]
    split
    · left
      obtain ⟨a, ha, hkey, hvalues⟩ := writePending_attempted (s := (s.put _
        ((s.entry (region, layout.sensorType)).reported values)).tick) hfile
      refine ⟨a, ha, hkey, hvalues.trans ?_⟩
      rw [entry_tick, entry_put_self]
      rfl
    · right
      rw [entry_tick, entry_put_self]
      exact ⟨hpending, rfl⟩


/-- The stopping writer finds a pending value pending. -/
theorem CachedRegion.Sound.recheck_eq (hc : c.Sound) (hpending : c.pending = true) :
    c.recheck = c := by
  obtain ⟨hhave, hlive, hne⟩ := hc.pending hpending
  have hdiffers : c.differs c.values = true := by
    simp [CachedRegion.differs, Ne.symm hne]
  have hsame : (c.haveValue && !allZero c.values && c.differs c.values) = c.pending := by
    simp [hhave, hlive, hdiffers, hpending]
  simp only [CachedRegion.recheck, hsame]

/-- **A pending value is attempted** by a turn of the writer when it is due, and stays as it is
before. -/
theorem writerTurn_pending {turn : SensorLayout × Region}
    (hfile : turn.1.fileFor turn.2 ≠ none)
    (hsound : (s.entry (turn.2, turn.1.sensorType)).Sound)
    (hpending : (s.entry (turn.2, turn.1.sensorType)).pending = true) :
    Attempted (turn.2, turn.1.sensorType) (s.entry (turn.2, turn.1.sensorType)).values s
      (writerTurn s turn) ∨
    (writerTurn s turn).entry (turn.2, turn.1.sensorType) =
        s.entry (turn.2, turn.1.sensorType) ∧
      s.stopping = false ∧
      ¬ (s.entry (turn.2, turn.1.sensorType)).lastAttemptMs + kMinRewriteIntervalMs ≤ s.clockMs := by
  unfold writerTurn
  dsimp only
  split
  -- A key without a cache has nothing pending.
  · rename_i hnone
    simp [Store.entry, Caches.entry, hnone] at hpending
  · rename_i cache hcache
    have hentry : s.entry (turn.2, turn.1.sensorType) = cache := by
      simp [Store.entry, Caches.entry, hcache]
    rw [hentry] at hsound hpending ⊢
    -- The recheck at a stop keeps what is pending.
    have hrechecked : (if s.stopping then cache.recheck else cache) = cache := by
      split
      · exact hsound.recheck_eq hpending
      · rfl
    simp only [hrechecked, hpending, Bool.not_true, Bool.false_eq_true, if_false]
    have hvalues : ((s.put (turn.2, turn.1.sensorType) cache).entry
        (turn.2, turn.1.sensorType)).values = cache.values := by rw [entry_put_self]
    split
    · left
      obtain ⟨a, ha, hkey, hva⟩ :=
        writePending_attempted (s := s.put (turn.2, turn.1.sensorType) cache) hfile
      exact ⟨a, ha, hkey, hva.trans hvalues⟩
    -- The stop makes it due at once; while running, its time must have come.
    rename_i hrunning
    split
    · left
      obtain ⟨a, ha, hkey, hva⟩ :=
        writePending_attempted (s := (s.put (turn.2, turn.1.sensorType) cache).tick) hfile
      exact ⟨a, ha, hkey, hva.trans hvalues⟩
    -- Too early: only the clock has gone on.
    · rename_i hearly
      right
      rw [entry_tick, entry_put_self]
      refine ⟨rfl, by simpa [Store.put] using hrunning, fun hdue => hearly (hdue.trans ?_)⟩
      show s.clockMs ≤ s.clockMs + ((s.ticks.headD 0 : Nat) : Int)
      omega

end Attempts

end Mindone.Sensors
