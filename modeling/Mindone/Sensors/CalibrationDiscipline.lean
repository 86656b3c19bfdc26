import Mindone.Sensors.CalibrationWrites

/-!
# Mindone.Sensors.CalibrationDiscipline

The rules about the writes of calibration values, over every run of the store: `Store.Sound` is what
holds between two steps, and **each turn keeps it** (`Turn.keeps`). What a run does to the file's
values is read off the attempts that it made.
-/

namespace Mindone.Sensors

variable {key k : Key} {s s' s'' : Store} {c : CachedRegion} {layout : SensorLayout}
  {region : Region} {values : List Int32}

/-- A region of the kernel's reports. -/
def Key.Known (key : Key) : Prop :=
  ∃ layout ∈ allLayouts, key.2 = layout.sensorType ∧ (layout.region key.1).length > 0

/-- What holds between two steps. -/
structure Store.Sound (s : Store) : Prop where
  entries : ∀ key, (s.entry key).Sound
  known : ∀ key, s.caches key ≠ none → Key.Known key
  last : ∀ key, (s.entry key).lastAttemptMs ≤ s.clockMs
  live : ∀ a ∈ s.attempts, allZero a.values = false
  times : ∀ a ∈ s.attempts, a.timeMs ≤ (s.entry a.key).lastAttemptMs
  spaced : s.attempts.Pairwise fun newer older => newer.key = older.key →
    newer.stopping = false → older.timeMs + kMinRewriteIntervalMs ≤ newer.timeMs

/-- The regions of the layouts that have a length have a file. -/
theorem fileFor_ne_none (hlayout : layout ∈ allLayouts) (hlength : (layout.region region).length > 0) :
    layout.fileFor region ≠ none := by
  simp only [allLayouts, List.mem_cons, List.not_mem_nil, or_false] at hlayout
  rcases hlayout with rfl | rfl | rfl | rfl <;> cases region <;> first | decide | simp [SensorLayout.region] at hlength

/-! ### Turns -/

/-- The last attempt does not go back. -/
theorem Turn.last_le (h : Turn key s s')
    (hinterval : (s.entry key).lastAttemptMs ≤ s.clockMs) :
    (s.entry k).lastAttemptMs ≤ (s'.entry k).lastAttemptMs := by
  by_cases hk : k = key
  · subst hk
    rcases h.writes with hidle | ⟨a, ha⟩
    · exact hidle.last
    · rw [← ha.time]
      exact ha.late
  · rw [entry_eq_of_caches (h.others k hk)]

/-- **A turn keeps what holds.** -/
theorem Turn.keeps (h : Turn key s s') (hs : s.Sound) (hknown : s'.caches key ≠ none → key.Known) :
    s'.Sound where
  entries := by
    intro k
    -- Only the entry of the key may change.
    by_cases hk : k = key
    · exact hk ▸ h.sound
    · rw [entry_eq_of_caches (h.others k hk)]
      exact hs.entries k
  known := by
    intro k hcached
    by_cases hk : k = key
    · exact hk ▸ hknown (hk ▸ hcached)
    · exact hs.known k (h.others k hk ▸ hcached)
  last := by
    intro k
    by_cases hk : k = key
    · exact hk ▸ h.last
    · rw [entry_eq_of_caches (h.others k hk)]
      exact (hs.last k).trans h.clock
  live := by
    intro a ha
    -- A turn writes at most once, and notes the attempt it makes.
    rcases h.writes with hidle | ⟨b, hb⟩
    · exact hs.live a (hidle.attempts ▸ ha)
    · rw [hb.attempts, List.mem_cons] at ha
      rcases ha with rfl | ha
      · exact hb.live
      · exact hs.live a ha
  times := by
    intro a ha
    rcases h.writes with hidle | ⟨b, hb⟩
    · exact (hs.times a (hidle.attempts ▸ ha)).trans (h.last_le (hs.last key))
    · rw [hb.attempts, List.mem_cons] at ha
      rcases ha with rfl | ha
      · rw [hb.about]
        exact Int.le_of_eq hb.time
      · exact (hs.times a ha).trans (h.last_le (hs.last key))
  spaced := by
    rcases h.writes with hidle | ⟨b, hb⟩
    · rw [hidle.attempts]
      exact hs.spaced
    · rw [hb.attempts, List.pairwise_cons]
      -- The new attempt is the last, and keeps its distance to the one before.
      refine ⟨?_, hs.spaced⟩
      intro a ha hkey hrunning
      have hle := hs.times a ha
      have hgap := hb.spaced (hb.stopping.symm.trans hrunning)
      rw [← hkey, hb.about] at hle
      omega

/-- The attempts of some turns, and what they do to what has been persisted. -/
structure Written (new : List Attempt) (s s' : Store) : Prop where
  attempts : s'.attempts = new ++ s.attempts
  /-- Only a successful write changes what has been persisted. -/
  persisted : ∀ key,
    (s'.entry key).persistedValues = (s.entry key).persistedValues ∧
      (s'.entry key).havePersistedValue = (s.entry key).havePersistedValue ∨
    ∃ a ∈ new, a.key = key ∧ a.ok = true ∧ (s'.entry key).persistedValues = a.values
  /-- What a failed write should have stored is not what has been persisted. -/
  failed : ∀ a ∈ new, a.ok = false →
    a.values ≠ (s'.entry a.key).persistedValues ∨ ∃ b ∈ new, b.key = a.key ∧ b.ok = true

theorem Written.refl (s : Store) : Written [] s s where
  attempts := rfl
  persisted := fun _ => .inl ⟨rfl, rfl⟩
  failed := nofun

/-- What two steps write is what both write. -/
theorem Written.trans {new new' : List Attempt} (h : Written new s s') (h' : Written new' s' s'') :
    Written (new' ++ new) s s'' where
  attempts := by rw [h'.attempts, h.attempts, List.append_assoc]
  persisted := by
    intro key
    rcases h'.persisted key with hkept' | ⟨a, ha, hstored⟩
    · rcases h.persisted key with hkept | ⟨a, ha, hkey, hok, hvalues⟩
      · exact .inl ⟨hkept'.1.trans hkept.1, hkept'.2.trans hkept.2⟩
      · exact .inr ⟨a, List.mem_append_right _ ha, hkey, hok, hkept'.1.trans hvalues⟩
    · exact .inr ⟨a, List.mem_append_left _ ha, hstored⟩
  failed := by
    intro a ha hfailed
    rcases List.mem_append.mp ha with ha | ha
    · refine (h'.failed a ha hfailed).imp_right ?_
      rintro ⟨b, hb, hstored⟩
      exact ⟨b, List.mem_append_left _ hb, hstored⟩
    · rcases h.failed a ha hfailed with hne | ⟨b, hb, hstored⟩
      · -- the later turns leave what has been persisted, or store something
        rcases h'.persisted a.key with hkept | ⟨b, hb, hkey, hok, -⟩
        · exact .inl (hkept.1 ▸ hne)
        · exact .inr ⟨b, List.mem_append_left _ hb, hkey, hok⟩
      · exact .inr ⟨b, List.mem_append_right _ hb, hstored⟩

/-- A turn writes at most once. -/
theorem Turn.written (h : Turn key s s') : ∃ new, Written new s s' := by
  have hothers : ∀ k, k ≠ key →
      (s'.entry k).persistedValues = (s.entry k).persistedValues ∧
      (s'.entry k).havePersistedValue = (s.entry k).havePersistedValue := by
    intro k hk
    rw [entry_eq_of_caches (h.others k hk)]
    exact ⟨rfl, rfl⟩
  rcases h.writes with hidle | ⟨a, ha⟩
  · refine ⟨[], hidle.attempts, ?_, nofun⟩
    intro k
    by_cases hk : k = key
    · exact .inl (hk ▸ ⟨hidle.persistedValues, hidle.havePersistedValue⟩)
    · exact .inl (hothers k hk)
  · refine ⟨[a], ha.attempts, ?_, ?_⟩
    · intro k
      by_cases hk : k = key
      · subst hk
        cases hok : a.ok with
        | true => exact .inr ⟨a, List.mem_singleton_self a, ha.about, hok, ha.stored hok⟩
        | false => exact .inl ⟨(ha.failed hok).1, (ha.failed hok).2.1⟩
      · exact .inl (hothers k hk)
    · intro b hb hfailed
      obtain rfl := List.mem_singleton.mp hb
      rw [ha.about]
      exact .inl (ha.failed hfailed).2.2.2

/-! ### Steps -/

/-- What is read belongs to a region that has a length. -/
theorem length_of_reads {reads : Reads} (region : Region)
    (hread : (match region with
      | .bias => (reads.of layout).bias
      | .cali => (reads.of layout).cali
      | .temp => (reads.of layout).temp) = some values) :
    (layout.region region).length > 0 := by
  cases region with
  | bias =>
      simp only [Reads.of, Option.ite_none_right_eq_some] at hread
      exact hread.1.1
  | cali =>
      simp only [Reads.of, Option.ite_none_right_eq_some] at hread
      exact hread.1.1
  | temp =>
      simp only [Reads.of, Option.ite_none_right_eq_some] at hread
      exact hread.1

/-- A part that is built only when it was read keeps what its seeds keep. -/
theorem part_seeds (holds : Caches → Prop) {part : Option (List Int32)}
    {build : List Int32 → List UInt8 × Caches → List UInt8 × Caches} {state : List UInt8 × Caches}
    (hbuild : ∀ values, part = some values → holds state.2 → holds (build values state).2)
    (h : holds state.2) :
    holds (match part with | some values => build values state | none => state).2 := by
  cases part with
  | none => exact h
  | some values => exact hbuild values rfl h

/-- **`buildPayload` only seeds** the regions of its layout. -/
theorem buildPayload_seeds (layout : SensorLayout) (reads : Reads) (holds : Caches → Prop)
    (hseed : ∀ caches region values, (layout.region region).length > 0 → holds caches →
      holds (caches.seed region layout values))
    (caches : Caches) (h : holds caches) : holds (Plain.buildPayload layout reads caches).2 := by
  have hcali : ∀ (state : List UInt8 × Caches) cali, (reads.of layout).cali = some cali →
      holds state.2 → holds (Plain.buildCali layout cali state).2 := by
    intro state cali hread hstate
    have hlength := length_of_reads .cali hread
    unfold Plain.buildCali
    dsimp only
    split
    · rename_i hcombined
      exact hseed _ .cali _ hlength (hseed _ .bias _ hcombined.1 hstate)
    · exact hseed _ .cali _ hlength hstate
  -- the payload is built of the bias, of the calibration and of the temperature, in this order
  refine part_seeds holds (fun temp hread hstate => ?_) (part_seeds holds
    (fun cali hread hstate => hcali _ cali hread hstate) (part_seeds holds
      (fun bias hread hstate => ?_) h))
  · exact hseed _ .temp _ (length_of_reads .temp hread) hstate
  · exact hseed _ .bias _ (length_of_reads .bias hread) hstate

/-! ### What a step keeps -/

/-- A live value that has not been persisted. -/
def CachedRegion.Unpersisted (c : CachedRegion) : Prop :=
  c.haveValue = true ∧ (c.havePersistedValue = false ∨ c.values ≠ c.persistedValues)

theorem seedCache_unpersisted (hc : c.Unpersisted) : seedCache c values = c := by
  unfold seedCache
  rw [if_pos]
  simpa using show _ ∧ _ from hc

theorem seedCache_sound (hc : c.Sound) : (seedCache c values).Sound := by
  unfold seedCache
  split
  · exact hc
  · rename_i hseeded
    refine ⟨fun hpending => absurd ?_ hseeded, nofun⟩
    obtain ⟨hvalue, -, hne⟩ := hc.pending hpending
    exact ⟨hvalue, .inr hne⟩

theorem seedCache_last (c : CachedRegion) : (seedCache c values).lastAttemptMs = c.lastAttemptMs := by
  unfold seedCache
  split
  · rfl
  · rfl

theorem entry_seed (caches : Caches) (key : Key) :
    (caches.seed region layout values).entry key =
      if key = (region, layout.sensorType) then seedCache (caches.entry key) values
      else caches.entry key := by
  by_cases hk : key = (region, layout.sensorType)
  · simp [Caches.seed, Caches.entry, hk]
  · simp [Caches.seed, Caches.entry, hk]

/-- **A reseed keeps what holds.** -/
theorem Store.Sound.seed (hs : s.Sound) (hlayout : layout ∈ allLayouts)
    (hlength : (layout.region region).length > 0) :
    Store.Sound { s with caches := s.caches.seed region layout values } := by
  have hlast : ∀ key, ((s.caches.seed region layout values).entry key).lastAttemptMs =
      (s.entry key).lastAttemptMs := by
    intro key
    rw [entry_seed]
    split
    · exact seedCache_last _
    · rfl
  refine ⟨?_, ?_, fun key => ?_, hs.live, fun a ha => ?_, hs.spaced⟩
  · intro key
    show ((s.caches.seed region layout values).entry key).Sound
    rw [entry_seed]
    split
    · exact seedCache_sound (hs.entries key)
    · exact hs.entries key
  · intro key hcached
    by_cases hk : key = (region, layout.sensorType)
    · subst hk
      exact ⟨layout, hlayout, rfl, hlength⟩
    · exact hs.known key (by simpa [Caches.seed, hk] using hcached)
  · exact (hlast key).le.trans (hs.last key)
  · exact (hs.times a ha).trans (hlast a.key).ge

theorem mem_of_layoutFor {sensorType : Nat} (h : layoutFor sensorType = some layout) :
    layout ∈ allLayouts := List.mem_of_find?_eq_some h

theorem buildPayload_keeps (hs : s.Sound) (hlayout : layout ∈ allLayouts) (reads : Reads) :
    Store.Sound { s with caches := (Plain.buildPayload layout reads s.caches).2 } :=
  buildPayload_seeds layout reads (fun caches => Store.Sound { s with caches := caches })
    (fun _ _ _ hlength hcaches => hcaches.seed hlayout hlength) s.caches hs

theorem buildPayload_unpersisted (hlive : (s.entry key).Unpersisted) (reads : Reads) :
    (Plain.buildPayload layout reads s.caches).2.entry key = s.entry key := by
  refine buildPayload_seeds layout reads (fun caches => caches.entry key = s.entry key) ?_ s.caches rfl
  intro caches region values _ hcaches
  rw [entry_seed, hcaches]
  split
  · exact seedCache_unpersisted hlive
  · rfl

/-! ### Reports -/

/-- The values that a step reports for a region. -/
def Step.Reports : Step → Key → List Int32 → Prop
  | .kernelEvent sensorType action words, key, values =>
      ∃ layout region, layoutFor sensorType = some layout ∧ actionRegion action = some region ∧
        (layout.region region).length > 0 ∧ key = (region, layout.sensorType) ∧
        values = words.toList.take ((layout.region region).length / 4)
  | _, _, _ => False

/-- An event of the kernel reports values of one region, or nothing. -/
theorem onKernelEvent_cases (sensorType action : Nat) (words : Vector Int32 16) (s : Store) :
    onKernelEvent sensorType action words s = s ∧
      (∀ key values, ¬ (Step.kernelEvent sensorType action words).Reports key values) ∨
    ∃ layout ∈ allLayouts, ∃ region values, (layout.region region).length > 0 ∧
      (∀ key values', (Step.kernelEvent sensorType action words).Reports key values' ↔
        key = (region, layout.sensorType) ∧ values' = values) ∧
      onKernelEvent sensorType action words s = persistRegion layout region values s := by
  unfold onKernelEvent
  split
  · rename_i layout region hlayout hregion
    split
    · rename_i hlength
      refine .inr ⟨layout, mem_of_layoutFor hlayout, region, _, hlength, ?_, rfl⟩
      intro key values'
      constructor
      · rintro ⟨layout', region', hlayout', hregion', -, rfl, rfl⟩
        obtain rfl := Option.some.inj (hlayout.symm.trans hlayout')
        obtain rfl := Option.some.inj (hregion.symm.trans hregion')
        exact ⟨rfl, rfl⟩
      · rintro ⟨rfl, rfl⟩
        exact ⟨layout, region, hlayout, hregion, hlength, rfl, rfl⟩
    · rename_i hlength
      refine .inl ⟨rfl, ?_⟩
      rintro key values' ⟨layout', region', hlayout', hregion', hlength', -, -⟩
      obtain rfl := Option.some.inj (hlayout.symm.trans hlayout')
      obtain rfl := Option.some.inj (hregion.symm.trans hregion')
      exact hlength hlength'
  · rename_i hnone
    refine .inl ⟨rfl, ?_⟩
    rintro key values' ⟨layout', region', hlayout', hregion', -, -, -⟩
    exact hnone layout' region' hlayout' hregion'

/-- A value that is pending stays so when it is reported again. -/
theorem persistRegion_again (hsound : (s.entry (region, layout.sensorType)).Sound)
    (hpending : (s.entry (region, layout.sensorType)).pending = true) :
    (persistRegion layout region (s.entry (region, layout.sensorType)).values s).entry
      (region, layout.sensorType) = s.entry (region, layout.sensorType) := by
  unfold persistRegion
  simp [hpending, (hsound.pending hpending).1]

/-! ### The writer -/

/-- When an attempt is due. -/
def Store.Due (s : Store) (key : Key) : Prop :=
  s.stopping = true ∨ (s.entry key).lastAttemptMs + kMinRewriteIntervalMs ≤ s.clockMs

/-- What the turns of the writer do to a pending value. -/
def Waits (key : Key) (new : List Attempt) (turns : List (SensorLayout × Region)) (s s' : Store) :
    Prop :=
  (∃ a ∈ new, a.key = key ∧ a.values = (s.entry key).values) ∨
  s'.entry key = s.entry key ∧ (s.Due key → ∀ turn ∈ turns, (turn.2, turn.1.sensorType) ≠ key)

theorem eq_of_sensorType {layout' : SensorLayout} (h : layout ∈ allLayouts)
    (h' : layout' ∈ allLayouts) (htype : layout.sensorType = layout'.sensorType) :
    layout = layout' := by
  simp only [allLayouts, List.mem_cons, List.not_mem_nil, or_false] at h h'
  rcases h with rfl | rfl | rfl | rfl <;> rcases h' with rfl | rfl | rfl | rfl <;>
    first | rfl | exact absurd htype (by decide)

/-- A value that is pending belongs to a file. -/
theorem Store.Sound.fileFor_of_pending (hs : s.Sound) (hlayout : layout ∈ allLayouts)
    (hpending : (s.entry (region, layout.sensorType)).pending = true) :
    layout.fileFor region ≠ none := by
  have hcached : s.caches (region, layout.sensorType) ≠ none := by
    intro hnone
    simp [Store.entry, Caches.entry, hnone] at hpending
  obtain ⟨layout', hlayout', htype, hlength⟩ := hs.known _ hcached
  obtain rfl := eq_of_sensorType hlayout hlayout' htype
  exact fileFor_ne_none hlayout hlength

theorem writerTurn_keeps (hs : s.Sound) (turn : SensorLayout × Region) :
    (writerTurn s turn).Sound := by
  refine (writerTurn_turn (hs.entries _) (hs.last _)).keeps hs fun hcached => ?_
  by_cases hnone : s.caches (turn.2, turn.1.sensorType) = none
  · -- the writer does not look at a region that is not cached
    have hsame : writerTurn s turn = s := by simp [writerTurn, hnone]
    rw [hsame] at hcached
    exact absurd hnone hcached
  · exact hs.known _ hnone

/-- One turn of a pass. -/
theorem writerTurn_waits (hs : s.Sound) {turn : SensorLayout × Region} {new : List Attempt}
    (hturn : turn.1 ∈ allLayouts) (hnew : Written new s (writerTurn s turn))
    (hpending : (s.entry key).pending = true) : Waits key new [turn] s (writerTurn s turn) := by
  by_cases hk : key = (turn.2, turn.1.sensorType)
  · subst hk
    rcases writerTurn_pending (hs.fileFor_of_pending hturn hpending) (hs.entries _) hpending with
      ⟨a, ha, hkey, hvalues⟩ | ⟨hsame, hrunning, hearly⟩
    · have hone : new = [a] := List.append_cancel_right (hnew.attempts.symm.trans ha)
      exact .inl ⟨a, hone ▸ List.mem_singleton_self a, hkey, hvalues⟩
    · refine .inr ⟨hsame, fun hdue => ?_⟩
      rcases hdue with hstopping | hdue
      · exact absurd (hstopping.symm.trans hrunning) (by decide)
      · exact absurd hdue hearly
  · refine .inr ⟨entry_eq_of_caches ((writerTurn_turn (hs.entries _) (hs.last _)).others key hk),
      fun _ other hother => ?_⟩
    obtain rfl := List.mem_singleton.mp hother
    exact Ne.symm hk

/-- **A pass of the writer** keeps what holds, and attempts what is pending and due. -/
theorem writerTurns_keeps (turns : List (SensorLayout × Region))
    (hturns : ∀ turn ∈ turns, turn.1 ∈ allLayouts) :
    ∀ s, s.Sound →
      (turns.foldl writerTurn s).Sound ∧ ∃ new, Written new s (turns.foldl writerTurn s) ∧
        ∀ key, (s.entry key).pending = true →
          Waits key new turns s (turns.foldl writerTurn s) := by
  induction turns with
  | nil =>
      intro s hs
      exact ⟨hs, [], .refl s, fun key _ => .inr ⟨rfl, nofun⟩⟩
  | cons turn turns ih =>
      intro s hs
      have hturn : Turn (turn.2, turn.1.sensorType) s (writerTurn s turn) :=
        writerTurn_turn (hs.entries _) (hs.last _)
      obtain ⟨new, hnew⟩ := hturn.written
      obtain ⟨hs', new', hnew', hwaits⟩ :=
        ih (fun other hother => hturns other (List.mem_cons_of_mem _ hother)) _
          (writerTurn_keeps hs turn)
      refine ⟨hs', new' ++ new, hnew.trans hnew', fun key hpending => ?_⟩
      rcases writerTurn_waits hs (hturns turn List.mem_cons_self) hnew hpending with
        ⟨a, ha, hattempt⟩ | ⟨hsame, hfirst⟩
      · exact .inl ⟨a, List.mem_append_right _ ha, hattempt⟩
      · rcases hwaits key (hsame ▸ hpending) with ⟨a, ha, hkey, hvalues⟩ | ⟨hsame', hrest⟩
        · exact .inl ⟨a, List.mem_append_left _ ha, hkey, hvalues.trans (by rw [hsame])⟩
        · refine .inr ⟨hsame'.trans hsame, fun hdue => ?_⟩
          -- what is due stays due
          have hdue' : (writerTurn s turn).Due key := by
            unfold Store.Due at hdue ⊢
            rw [hturn.stopping, hsame]
            exact hdue.imp_right fun hdue => hdue.trans hturn.clock
          rintro other hother
          rcases List.mem_cons.mp hother with rfl | hother
          · exact hfirst hdue other (List.mem_singleton_self other)
          · exact hrest hdue' other hother

theorem mem_writerTurns (hlayout : layout ∈ allLayouts) (region : Region) :
    (layout, region) ∈ writerTurns := by
  refine List.mem_flatMap.mpr ⟨layout, hlayout, ?_⟩
  cases region <;> simp

theorem layout_of_mem_writerTurns {turn : SensorLayout × Region} (h : turn ∈ writerTurns) :
    turn.1 ∈ allLayouts := by
  obtain ⟨layout, hlayout, hturn⟩ := List.mem_flatMap.mp h
  simp only [List.mem_cons, List.not_mem_nil, or_false] at hturn
  rcases hturn with rfl | rfl | rfl <;> exact hlayout

/-! ### Every step -/

/-- A step that looks at the files of a sensor. -/
def Step.IsReseed : Step → Prop
  | .buildPayload _ _ => True
  | _ => False

/-- **What a step does to the files**, with the attempts that it makes. -/
structure Obeys (step : Step) (new : List Attempt) (s s' : Store) : Prop where
  attempts : s'.attempts = new ++ s.attempts
  /-- Apart from a reseed, only a successful write changes what has been persisted. -/
  persisted : ¬ step.IsReseed → ∀ key,
    (s'.entry key).persistedValues = (s.entry key).persistedValues ∧
      (s'.entry key).havePersistedValue = (s.entry key).havePersistedValue ∨
    ∃ a ∈ new, a.key = key ∧ a.ok = true ∧ (s'.entry key).persistedValues = a.values
  /-- What a failed write should have stored is not what has been persisted. -/
  failed : ∀ a ∈ new, a.ok = false →
    a.values ≠ (s'.entry a.key).persistedValues ∨ ∃ b ∈ new, b.key = a.key ∧ b.ok = true
  /-- Values that are reported and that are not those of the file are attempted or pending. -/
  reported : ∀ key values, step.Reports key values → allZero values = false →
    values ≠ (s.entry key).persistedValues →
    (∃ a ∈ new, a.key = key ∧ a.values = values) ∨
      (s'.entry key).pending = true ∧ (s'.entry key).values = values
  /-- A pending value is attempted, or stays pending, unless another one is reported. -/
  waits : ∀ key, (s.entry key).pending = true →
    (∃ a ∈ new, a.key = key ∧ a.values = (s.entry key).values) ∨
      (s'.entry key).pending = true ∧ (s'.entry key).values = (s.entry key).values ∨
      ∃ values, step.Reports key values ∧ values ≠ (s.entry key).values
  /-- The writer attempts what is due. -/
  due : step = .writerPass → ∀ key, (s.entry key).pending = true → s.Due key →
    ∃ a ∈ new, a.key = key ∧ a.values = (s.entry key).values
  /-- A reseed does not overwrite what has not been persisted. -/
  reseed : step.IsReseed → ∀ key, (s.entry key).Unpersisted → s'.entry key = s.entry key

theorem CachedRegion.Sound.unpersisted (hc : c.Sound) (hpending : c.pending = true) :
    c.Unpersisted :=
  ⟨(hc.pending hpending).1, .inr (hc.pending hpending).2.2⟩

/-- A step that attempts nothing and reports nothing. -/
theorem obeys_of_quiet {step : Step} (hattempts : s'.attempts = s.attempts)
    (hreports : ∀ key values, ¬ step.Reports key values) (hpass : step ≠ .writerPass)
    (hentry : ¬ step.IsReseed → s'.caches = s.caches)
    (hreseed : ∀ key, (s.entry key).Unpersisted → s'.entry key = s.entry key) (hs : s.Sound) :
    Obeys step [] s s' where
  attempts := hattempts
  persisted := by
    intro hstep key
    rw [entry_eq_of_caches (congrFun (hentry hstep) key)]
    exact .inl ⟨rfl, rfl⟩
  failed := nofun
  reported := fun key values hreport => absurd hreport (hreports key values)
  waits := by
    intro key hpending
    rw [hreseed key ((hs.entries key).unpersisted hpending)]
    exact .inr (.inl ⟨hpending, rfl⟩)
  due := fun h => absurd h hpass
  reseed := fun _ => hreseed

theorem writerPass_obeys (hs : s.Sound) :
    (writerPass s).Sound ∧ ∃ new, Obeys .writerPass new s (writerPass s) := by
  obtain ⟨hs', new, hnew, hwaits⟩ :=
    writerTurns_keeps writerTurns (fun _ => layout_of_mem_writerTurns) s hs
  refine ⟨hs', new, hnew.attempts, fun _ => hnew.persisted, hnew.failed, nofun, ?_, ?_, nofun⟩
  · intro key hpending
    rcases hwaits key hpending with hattempt | ⟨hsame, -⟩
    · exact .inl hattempt
    · exact .inr (.inl ⟨(congrArg _ hsame).trans hpending, congrArg _ hsame⟩)
  · intro _ key hpending hdue
    rcases hwaits key hpending with hattempt | ⟨-, hnone⟩
    · exact hattempt
    · -- the loop looks at every region that is cached
      have hcached : s.caches key ≠ none := by
        intro hnone
        simp [Store.entry, Caches.entry, hnone] at hpending
      obtain ⟨layout, hlayout, htype, -⟩ := hs.known key hcached
      have hkey : (key.1, layout.sensorType) = key := Prod.ext rfl htype.symm
      exact absurd hkey (hnone hdue _ (mem_writerTurns hlayout key.1))

/-- An event of the kernel is reported, and written when it is due. -/
theorem kernelEvent_obeys (hs : s.Sound) (sensorType action : Nat) (words : Vector Int32 16) :
    (onKernelEvent sensorType action words s).Sound ∧
      ∃ new, Obeys (.kernelEvent sensorType action words) new s
        (onKernelEvent sensorType action words s) := by
  rcases onKernelEvent_cases sensorType action words s with
    ⟨hsame, hreports⟩ | ⟨layout, hlayout, region, values, hlength, hreports, hsame⟩
  · rw [hsame]
    exact ⟨hs, [], obeys_of_quiet rfl hreports nofun (fun _ => rfl) (fun _ _ => rfl) hs⟩
  · rw [hsame]
    have hturn : Turn (region, layout.sensorType) s (persistRegion layout region values s) :=
      persistRegion_turn values (hs.entries _) (hs.last _)
    obtain ⟨new, hnew⟩ := hturn.written
    refine ⟨hturn.keeps hs fun _ => ⟨layout, hlayout, rfl, hlength⟩, new, hnew.attempts,
      fun _ => hnew.persisted, hnew.failed, ?_, ?_, nofun, nofun⟩
    · intro key values' hreport hlive hne
      obtain ⟨rfl, rfl⟩ := (hreports key values').mp hreport
      have hdiffers : (s.entry (region, layout.sensorType)).differs values' = true := by
        simp [CachedRegion.differs, Ne.symm hne]
      rcases persistRegion_attempted (fileFor_ne_none hlayout hlength) hlive hdiffers with
        ⟨a, ha, hattempt⟩ | hpending
      · have hone : new = [a] := List.append_cancel_right (hnew.attempts.symm.trans ha)
        exact .inl ⟨a, hone ▸ List.mem_singleton_self a, hattempt⟩
      · exact .inr hpending
    · intro key hpending
      by_cases hk : key = (region, layout.sensorType)
      · subst hk
        by_cases hvalues : values = (s.entry (region, layout.sensorType)).values
        · have hagain := persistRegion_again (hs.entries _) hpending
          rw [hvalues, hagain]
          exact .inr (.inl ⟨hpending, rfl⟩)
        · exact .inr (.inr ⟨values, (hreports _ _).mpr ⟨rfl, rfl⟩, hvalues⟩)
      · rw [entry_eq_of_caches (hturn.others key hk)]
        exact .inr (.inl ⟨hpending, rfl⟩)

/-- **Every step keeps what holds and obeys the rules.** -/
theorem step_obeys (hs : s.Sound) (step : Step) :
    (s.step step).Sound ∧ ∃ new, Obeys step new s (s.step step) := by
  cases step with
  | buildPayload sensorType reads =>
      unfold Store.step
      dsimp only
      split
      · exact ⟨hs, [], obeys_of_quiet rfl nofun nofun (fun _ => rfl) (fun _ _ => rfl) hs⟩
      · rename_i layout hlayout
        refine ⟨buildPayload_keeps hs (mem_of_layoutFor hlayout) reads, [], ?_⟩
        exact obeys_of_quiet rfl nofun nofun (fun h => absurd trivial h)
          (fun _ hlive => buildPayload_unpersisted hlive reads) hs
  | kernelEvent sensorType action words => exact kernelEvent_obeys hs sensorType action words
  | writerPass => exact writerPass_obeys hs
  | stop =>
      exact ⟨⟨hs.entries, hs.known, hs.last, hs.live, hs.times, hs.spaced⟩, [],
        obeys_of_quiet rfl nofun nofun (fun _ => rfl) (fun _ _ => rfl) hs⟩

theorem sound_start (ticks : List Nat) (outcomes : List Bool) : (Store.start ticks outcomes).Sound where
  entries := fun _ => .empty
  known := fun _ h => absurd rfl h
  last := fun _ => show -kMinRewriteIntervalMs ≤ 0 by decide
  live := nofun
  times := nofun
  spaced := .nil

theorem run_sound (hs : s.Sound) (steps : List Step) : (s.run steps).Sound := by
  induction steps generalizing s with
  | nil => exact hs
  | cons step steps ih => exact ih (step_obeys hs step).1

/-- **The write discipline.** Whatever the order of the steps, the ticks of the clock and the
outcomes of the writes: a pending value is live, not all zero and not the persisted one, nothing
that is all zero is written, attempts for one region before the stop are spaced, and every step
obeys the rules on what is persisted, attempted and reseeded. -/
theorem write_discipline (ticks : List Nat) (outcomes : List Bool) (steps : List Step) :
    let s := (Store.start ticks outcomes).run steps
    (∀ key, (s.entry key).pending = true → (s.entry key).haveValue = true ∧
      allZero (s.entry key).values = false ∧ (s.entry key).values ≠ (s.entry key).persistedValues) ∧
    (∀ a ∈ s.attempts, allZero a.values = false) ∧
    (s.attempts.Pairwise fun newer older => newer.key = older.key → newer.stopping = false →
      older.timeMs + kMinRewriteIntervalMs ≤ newer.timeMs) ∧
    ∀ step, ∃ new, Obeys step new s (s.step step) := by
  intro s
  have hs : s.Sound := run_sound (sound_start ticks outcomes) steps
  exact ⟨fun key => (hs.entries key).pending, hs.live, hs.spaced, fun step => (step_obeys hs step).2⟩

end Mindone.Sensors
