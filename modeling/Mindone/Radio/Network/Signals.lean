import Mindone.Radio.Network.Service
import Mindone.Radio.State.Slots

/-!
# Mindone.Radio.Network.Signals

The signal strength, twice: what `signal` reads off the slots of the model, and what the answer to a
query says, line by line over the old model. Both take the GSM value of the last report. **For LTE
the answer takes the last line, while the model prefers the later key of two that were observed at
the same time**, so that they differ when a line of the key 4096 comes behind one of the key 8192
(`lte_agrees_iff`).
-/

namespace Mindone.Radio.Network

open Mindone.Lib
open State (Model Observation Signal SignalRat Slots Kind)

/-- The signals of a model, by their keys. -/
abbrev Signals := List (SignalRat × Observation Signal)

def gsmKey : SignalRat := .gsmCsq
def lteKey : SignalRat := .mtkUnverified 4096
def lteLateKey : SignalRat := .mtkUnverified 8192

def gsmOf : Signal → Option GsmSignal
  | .gsm csq => some ⟨csq.rssi, csq.ber⟩
  | _ => none

def lteOf : Signal → Option LteSignal
  | .lte rsrp rsrq rssnr => some ⟨rsrp, rsrq, rssnr⟩
  | _ => none

theorem gsmOf_isSome {rat : SignalRat} {signal : Signal} (h : Kind rat signal) :
    (gsmOf signal).isSome ↔ rat = gsmKey := by
  cases rat <;> cases signal <;> simp_all [Kind, gsmOf, gsmKey]

theorem lteOf_isSome {rat : SignalRat} {signal : Signal} (h : Kind rat signal) :
    (lteOf signal).isSome ↔ rat = lteKey ∨ rat = lteLateKey := by
  cases rat <;> cases signal <;> simp_all [Kind, lteOf, lteKey, lteLateKey]

theorem lteOf_inj {a b : Signal} (ha : (lteOf a).isSome) (hb : (lteOf b).isSome) :
    lteOf a = lteOf b ↔ a = b := by
  cases a <;> cases b <;> simp_all [lteOf]

/-! ### What the model says -/

/-- The later one of two slots; of the same time, the second. -/
def latest : Option (Observation Signal) → Option (Observation Signal) → Option (Observation Signal)
  | some first, some second =>
      if first.observedMs ≤ second.observedMs then some second else some first
  | some first, none => some first
  | none, second => second

/-- A value in a slot is of the key's kind. -/
theorem kind_of_lookup {now : Nat} {signals : Signals} (h : Slots now signals) {rat : SignalRat}
    {slot : Observation Signal} (hslot : signals.lookup rat = some slot) :
    Kind rat slot.value ∧ slot.observedMs ≤ now := by
  obtain ⟨before, after, hsplit, -⟩ := List.lookup_eq_some_iff.mp hslot
  have hmem : (rat, slot) ∈ signals := by simp [hsplit]
  exact ⟨h.kinds _ hmem, h.times _ hmem⟩

theorem exists_lte {signal : Signal} (h : (lteOf signal).isSome) :
    ∃ rsrp rsrq rssnr, signal = .lte rsrp rsrq rssnr := by
  cases signal <;> simp_all [lteOf]

/-- The two LTE slots, of which the later one wins. -/
theorem foldl_lte {early late : Option (Observation Signal)}
    (hearly : ∀ slot ∈ early, (lteOf slot.value).isSome)
    (hlate : ∀ slot ∈ late, (lteOf slot.value).isSome) (gsm : Option GsmSignal) :
    ((early.toList ++ late.toList).foldl signalStep
        ({ SignalStrength.default with gsm }, none)).1 =
      { SignalStrength.default with
        gsm
        lte := (latest early late).bind fun slot => lteOf slot.value } := by
  cases early with
  | none =>
      cases late with
      | none => rfl
      | some late =>
          obtain ⟨_, _, _, hvalue⟩ := exists_lte (hlate late rfl)
          simp [latest, signalStep, hvalue, lteOf]
  | some early =>
      obtain ⟨_, _, _, hvalue⟩ := exists_lte (hearly early rfl)
      cases late with
      | none => simp [latest, signalStep, hvalue, lteOf]
      | some late =>
          obtain ⟨_, _, _, hvalue'⟩ := exists_lte (hlate late rfl)
          by_cases hle : early.observedMs ≤ late.observedMs
          · simp [latest, signalStep, hvalue, hvalue', lteOf, hle]
          · simp [latest, signalStep, hvalue, hvalue', lteOf, hle]

/-- **The strength that the slots give.** -/
theorem signal_eq {now : Nat} {model : Model} (h : Slots now model.signals) :
    signal model =
      { SignalStrength.default with
        gsm := (model.signals.lookup gsmKey).bind fun slot => gsmOf slot.value
        lte :=
          (latest (model.signals.lookup lteKey) (model.signals.lookup lteLateKey)).bind
            fun slot => lteOf slot.value } := by
  -- Slots of other kinds add nothing,
  have hskip : ∀ acc, ∀ entry ∈ model.signals, entry.1 ∉ [gsmKey, lteKey, lteLateKey] →
      signalStep acc entry.2 = acc := by
    intro acc entry hentry hout
    have hkind := h.kinds entry hentry
    have hgsm := (gsmOf_isSome hkind).not.mpr (by simp_all)
    have hlte := (lteOf_isSome hkind).not.mpr (by simp_all)
    unfold signalStep
    cases hvalue : entry.2.value with
    | gsm csq => simp [hvalue, gsmOf] at hgsm
    | lte rsrp rsrq rssnr => simp [hvalue, lteOf] at hlte
    | quarterUnitsUnverified => rfl
  -- so the loop sees three keys, in the order of the map.
  have hloop : model.signals.foldl (fun acc entry => signalStep acc entry.2) (.default, none) =
      (entriesOf [gsmKey, lteKey, lteLateKey] model.signals).foldl
        (fun acc entry => signalStep acc entry.2) (.default, none) :=
    foldl_eq_foldl_lookup (by simp [State.Before, SignalRat.before, gsmKey, lteKey, lteLateKey])
      h.sorted hskip _
  -- The later of the two LTE slots wins, and the GSM one stands alone.
  have hlte : ∀ rat, rat = lteKey ∨ rat = lteLateKey → ∀ slot ∈ model.signals.lookup rat,
      (lteOf slot.value).isSome :=
    fun _ hrat _ hslot => (lteOf_isSome (kind_of_lookup h hslot).1).mpr hrat
  have hrest := foldl_lte (hlte lteKey (.inl rfl)) (hlte lteLateKey (.inr rfl))
  have hvalues : ((entriesOf [gsmKey, lteKey, lteLateKey] model.signals).map Prod.snd).foldl
      signalStep (.default, none) = (entriesOf [gsmKey, lteKey, lteLateKey] model.signals).foldl
        (fun acc entry => signalStep acc entry.2) (.default, none) := List.foldl_map
  unfold signal
  rw [List.foldl_map, hloop, ← hvalues, map_snd_entriesOf]
  simp only [List.flatMap_cons, List.flatMap_nil, List.append_nil]
  rw [List.foldl_append]
  cases hgsm : model.signals.lookup gsmKey with
  | none => exact hrest none
  | some slot =>
      have hsome := (gsmOf_isSome (kind_of_lookup h hgsm).1).mpr rfl
      cases hvalue : slot.value with
      | gsm csq => simpa [signalStep, hvalue, gsmOf] using hrest (some ⟨csq.rssi, csq.ber⟩)
      | lte _ _ _ => simp [hvalue, gsmOf] at hsome
      | quarterUnitsUnverified => simp [hvalue, gsmOf] at hsome

/-! ### What an answer says -/

/-- A line of an answer, as a value for a key. -/
abbrev Report := SignalRat × Signal

/-- The reports of the lines. -/
def reports (lines : List Text) : List Report :=
  lines.filterMap fun line =>
    match State.observeLine line with
    | some (.signal rat signal) => some (rat, signal)
    | _ => none

/-- A report, on the strength so far. -/
def answerReport (strength : SignalStrength) (report : Report) : SignalStrength :=
  match report.2 with
  | .gsm csq => { strength with gsm := some ⟨csq.rssi, csq.ber⟩ }
  | .lte rsrp rsrq rssnr => { strength with lte := some ⟨rsrp, rsrq, rssnr⟩ }
  | .quarterUnitsUnverified .. => strength

theorem signalAnswer_eq (model : Model) (lines : List Text) :
    Network.signalAnswer model lines = (reports lines).foldl answerReport (signal model) := by
  unfold Network.signalAnswer
  generalize signal model = strength
  induction lines generalizing strength with
  | nil => rfl
  | cons line rest ih =>
      rw [List.foldl_cons, ih]
      unfold Network.answerLine reports
      rw [List.filterMap_cons]
      cases hline : State.observeLine line with
      | none => rfl
      | some update =>
          cases update with
          | signal rat signal => cases signal <;> rfl
          | _ => rfl

/-- The slots behind the reports. -/
def learned (now : Nat) (signals : Signals) (reports : List Report) : Signals :=
  reports.foldl
    (fun signals report => (Model.observeSignal report.1 report.2 now .query signals).2) signals

/-- The reports of the keys that carry LTE values, the last one. -/
def lastLte (reports : List Report) : Option Report :=
  (reports.filter fun report => (lteOf report.2).isSome).getLast?

/-- The last report for a key. -/
def lastOf (key : SignalRat) (reports : List Report) : Option Report :=
  (reports.filter fun report => report.1 = key).getLast?

section Answer

variable {now : Nat} {signals : Signals} {all : List Report}

@[simp] theorem learned_append (reports : List Report) (report : Report) :
    learned now signals (reports ++ [report]) =
      (Model.observeSignal report.1 report.2 now .query (learned now signals reports)).2 := by
  simp [learned]

theorem learned_slots (h : Slots now signals) (hall : ∀ report ∈ all, Kind report.1 report.2) :
    Slots now (learned now signals all) := by
  induction all using List.reverseRecOn with
  | nil => exact h
  | append_singleton rest report ih =>
      rw [learned_append]
      exact (ih fun other hother => hall other (by simp [hother])).observeSignal _ _ _
        (hall report (by simp))

/-- **Each key has its last report**, of this time, or what it had. -/
theorem lookup_learned (h : Slots now signals) (hall : ∀ report ∈ all, Kind report.1 report.2)
    (key : SignalRat) :
    (learned now signals all).lookup key =
      match lastOf key all with
      | some report => some ⟨report.2, now, .query⟩
      | none => signals.lookup key := by
  induction all using List.reverseRecOn with
  | nil => rfl
  | append_singleton rest report ih =>
      have hrest : ∀ report ∈ rest, Kind report.1 report.2 :=
        fun other hother => hall other (by simp [hother])
      rw [learned_append, State.lookup_observeSignal _ _ _ (learned_slots h hrest)]
      by_cases hkey : key = report.1
      · simp [lastOf, hkey]
      · have hne : ¬ report.1 = key := fun heq => hkey heq.symm
        rw [if_neg hkey, ih hrest]
        simp [lastOf, List.filter_append, hne]

/-- **The GSM values always agree.** -/
theorem learned_gsm (h : Slots now signals) (hall : ∀ report ∈ all, Kind report.1 report.2)
    (strength : SignalStrength)
    (hstrength : strength.gsm = (signals.lookup gsmKey).bind fun slot => gsmOf slot.value) :
    (all.foldl answerReport strength).gsm =
      ((learned now signals all).lookup gsmKey).bind fun slot => gsmOf slot.value := by
  induction all using List.reverseRecOn with
  | nil => exact hstrength
  | append_singleton rest report ih =>
      have hrest : ∀ report ∈ rest, Kind report.1 report.2 :=
        fun other hother => hall other (by simp [hother])
      have hkind := hall report (by simp)
      rw [learned_append, State.lookup_observeSignal _ _ _ (learned_slots h hrest),
        List.foldl_append, List.foldl_cons, List.foldl_nil]
      have hiff := gsmOf_isSome hkind
      by_cases hkey : gsmKey = report.1
      · have hsome := hiff.mpr hkey.symm
        rw [if_pos hkey]
        cases hvalue : report.2 <;> simp_all [answerReport, gsmOf]
      · have hnone := hiff.not.mpr fun heq => hkey heq.symm
        rw [if_neg hkey, ← ih hrest]
        cases hvalue : report.2 <;> simp_all [answerReport, gsmOf]

/-- The answer carries the LTE values of the last line that has some. -/
theorem answer_lte (strength : SignalStrength) :
    (all.foldl answerReport strength).lte =
      match lastLte all with
      | some report => lteOf report.2
      | none => strength.lte := by
  induction all using List.reverseRecOn with
  | nil => rfl
  | append_singleton rest report ih =>
      rw [List.foldl_append, List.foldl_cons, List.foldl_nil]
      cases hvalue : report.2 <;> simp_all [answerReport, lastLte, lteOf]

theorem answer_wcdma (strength : SignalStrength) :
    (all.foldl answerReport strength).wcdma = strength.wcdma := by
  induction all using List.reverseRecOn with
  | nil => rfl
  | append_singleton rest report ih =>
      rw [List.foldl_append, List.foldl_cons, List.foldl_nil]
      cases hvalue : report.2 <;> simp_all [answerReport]

/-- The last report with LTE values is the last one of its key. -/
theorem lastOf_of_lastLte (hall : ∀ report ∈ all, Kind report.1 report.2) {report : Report}
    (hlast : lastLte all = some report) :
    lastOf report.1 all = some report ∧ (report.1 = lteKey ∨ report.1 = lteLateKey) ∧
      (lteOf report.2).isSome := by
  induction all using List.reverseRecOn with
  | nil => cases hlast
  | append_singleton rest last ih =>
      have hrest : ∀ report ∈ rest, Kind report.1 report.2 :=
        fun other hother => hall other (by simp [hother])
      have hkind := hall last (by simp)
      by_cases hlte : (lteOf last.2).isSome
      · have heq : last = report := by simpa [lastLte, hlte] using hlast
        subst heq
        exact ⟨by simp [lastOf], (lteOf_isSome hkind).mp hlte, hlte⟩
      · have hold : lastLte rest = some report := by simpa [lastLte, hlte] using hlast
        obtain ⟨hlastOf, hkey, hsome⟩ := ih hrest hold
        refine ⟨?_, hkey, hsome⟩
        have hne : ¬ last.1 = report.1 := fun heq => hlte ((lteOf_isSome hkind).mpr (heq ▸ hkey))
        simpa [lastOf, hne] using hlastOf

/-- Without LTE values in the answer there is no report for their keys. -/
theorem lastOf_eq_none (hall : ∀ report ∈ all, Kind report.1 report.2) (hlast : lastLte all = none)
    {key : SignalRat} (hkey : key = lteKey ∨ key = lteLateKey) : lastOf key all = none := by
  unfold lastLte at hlast
  unfold lastOf
  rw [List.getLast?_eq_none_iff, List.filter_eq_nil_iff] at hlast ⊢
  intro report hreport heq
  have heq : report.1 = key := by simpa using heq
  exact hlast report hreport ((lteOf_isSome (hall report hreport)).mpr (heq ▸ hkey))

/-! ### Where they differ -/

/-- What is observed for the later LTE key at this time: its last report, or what its slot has from
before. -/
def rival (now : Nat) (signals : Signals) (all : List Report) : Option Signal :=
  match lastOf lteLateKey all with
  | some report => some report.2
  | none =>
      ((signals.lookup lteLateKey).filter fun slot => slot.observedMs = now).map fun slot =>
        slot.value

/-- The last LTE line is of the first key, and the later key was observed at the same time with
other values. -/
def Overtaken (now : Nat) (signals : Signals) (all : List Report) : Prop :=
  ∃ report ∈ lastLte all, report.1 = lteKey ∧ ∃ value ∈ rival now signals all, value ≠ report.2

instance (now : Nat) (signals : Signals) (all : List Report) : Decidable (Overtaken now signals all) :=
  Option.decidableExistsMem _

/-- **The LTE values agree exactly where the last line is not overtaken.** -/
theorem lte_agrees_iff (h : Slots now signals) (hall : ∀ report ∈ all, Kind report.1 report.2)
    (strength : SignalStrength)
    (hstrength : strength.lte = (latest (signals.lookup lteKey) (signals.lookup lteLateKey)).bind
      fun slot => lteOf slot.value) :
    (all.foldl answerReport strength).lte =
        (latest ((learned now signals all).lookup lteKey)
          ((learned now signals all).lookup lteLateKey)).bind (fun slot => lteOf slot.value) ↔
      ¬ Overtaken now signals all := by
  rw [answer_lte, lookup_learned h hall, lookup_learned h hall]
  unfold Overtaken rival
  -- Everything turns on the last line that carries LTE values.
  cases hlast : lastLte all with
  | none =>
      -- No such line: the answer keeps what it had and the model learns nothing.
      rw [lastOf_eq_none hall hlast (.inl rfl), lastOf_eq_none hall hlast (.inr rfl)]
      simpa using hstrength
  | some report =>
      obtain ⟨hown, hkey, hsome⟩ := lastOf_of_lastLte hall hlast
      -- Its own slot holds it in either case; what differs is the slot of the other kind.
      rcases hkey with hkey | hkey
      · rw [hkey] at hown
        rw [hown]
        -- The slot of the late kind wins a tie, so a rival of the same turn is the one that is
        -- read.
        cases hlate : lastOf lteLateKey all with
        | some other =>
            have hother : Kind other.1 other.2 ∧ other.1 = lteLateKey := by
              have hmem := List.mem_filter.mp (List.mem_of_getLast? hlate)
              exact ⟨hall other hmem.1, by simpa using hmem.2⟩
            have hlte := (lteOf_isSome hother.1).mpr (.inr hother.2)
            have hinj := lteOf_inj hsome hlte
            simp only [latest, Nat.le_refl, if_true, Option.bind_some, hinj]
            simp [hkey, eq_comm]
        | none =>
            cases hslot : signals.lookup lteLateKey with
            | none => simp [latest]
            | some slot =>
                obtain ⟨hkind, htime⟩ := kind_of_lookup h hslot
                have hinj := lteOf_inj hsome ((lteOf_isSome hkind).mpr (.inr rfl))
                -- A rival left from before counts only if its turn has the same clock reading.
                by_cases hnow : slot.observedMs = now
                · have hfound : (some slot).filter (fun slot => slot.observedMs = now) = some slot := by
                    simp [hnow]
                  simp only [hfound, latest, hnow, Nat.le_refl, if_true, Option.bind_some, hinj]
                  simp [hkey, eq_comm]
                · have hlt : ¬ now ≤ slot.observedMs := fun hle => hnow (Nat.le_antisymm htime hle)
                  simp [latest, hlt, hnow]
      · have hne : report.1 ≠ lteKey := by simp [hkey, lteKey, lteLateKey]
        rw [hkey] at hown
        rw [hown]
        -- A line of the late kind cannot be overtaken: nothing is newer than now.
        have hright : ∀ early : Option (Observation Signal), (∀ slot ∈ early, slot.observedMs ≤ now) →
            latest early (some ⟨report.2, now, .query⟩) = some ⟨report.2, now, .query⟩ := by
          intro early hearly
          cases early with
          | none => rfl
          | some slot => simp [latest, hearly slot rfl]
        dsimp only
        rw [hright]
        · simp [hne]
        · intro slot hslot
          cases hearly : lastOf lteKey all with
          | some other =>
              rw [hearly] at hslot
              cases hslot
              exact Nat.le_refl _
          | none =>
              rw [hearly] at hslot
              exact (kind_of_lookup h hslot).2

/-- What the two say where the later key was observed at the time of a last line of the first key:
the answer has the values of the line, the slots those of the later key. -/
theorem lte_of_rival (h : Slots now signals) (hall : ∀ report ∈ all, Kind report.1 report.2)
    (strength : SignalStrength) {report : Report} (hlast : report ∈ lastLte all)
    (hkey : report.1 = lteKey) {value : Signal} (hrival : value ∈ rival now signals all) :
    (all.foldl answerReport strength).lte = lteOf report.2 ∧
      (latest ((learned now signals all).lookup lteKey)
        ((learned now signals all).lookup lteLateKey)).bind (fun slot => lteOf slot.value) =
          lteOf value := by
  have hown := (lastOf_of_lastLte hall hlast).1
  rw [hkey] at hown
  rw [answer_lte, hlast, lookup_learned h hall, lookup_learned h hall, hown]
  refine ⟨rfl, ?_⟩
  unfold rival at hrival
  cases hlate : lastOf lteLateKey all with
  | some other =>
      rw [hlate] at hrival
      cases hrival
      simp [latest]
  | none =>
      rw [hlate] at hrival
      obtain ⟨slot, hslot, rfl⟩ := Option.mem_map.mp hrival
      obtain ⟨hslot, hnow⟩ := Option.mem_filter_iff.mp hslot
      have hnow : slot.observedMs = now := of_decide_eq_true hnow
      rw [Option.mem_def.mp hslot]
      simp [latest, hnow]

end Answer

end Mindone.Radio.Network
