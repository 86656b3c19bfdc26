import Mindone.Radio.Core.Runs
import Mindone.Radio.Modem.Steps
import Mindone.Radio.Network.Signals
import Mindone.Radio.Network.Steps

/-!
# Mindone.Radio.Core.SignalAnswer

The answer to a signal query beside the model that has learned from the same lines. In every core
that a run reaches the signals of the model are slots (`reach_signals`), and every update that the
services tell keeps them so. With that the answer is what the model says then, **but for an LTE line
of the key 4096 that comes behind one of the key 8192 of the same time**.
-/

set_option linter.dupNamespace false

namespace Mindone.Radio.Core

open At (Channels Event Heard)
open Mindone.Lib
open Network (Signals reports learned Overtaken lastLte lteKey lteOf rival)
open State (Kind Model Observation Signal SignalRat Slots Source Update)

/-! ### Updates keep the slots -/

/-- An update that carries a signal of its key's kind. -/
def Fitting : Update → Prop
  | .signal rat signal => Kind rat signal
  | _ => True

theorem fitting_of_observeLine {line : Text} {update : Update}
    (h : State.observeLine line = some update) : Fitting update := by
  unfold State.observeLine at h
  dsimp only at h
  split at h
  · obtain ⟨report, -, rfl⟩ := Option.map_eq_some_iff.mp h
    exact State.fromEcsq_kind report
  split at h
  · obtain ⟨⟨domain, registration⟩, -, rfl⟩ := Option.map_eq_some_iff.mp h
    trivial
  split at h
  · obtain ⟨⟨domain, registration⟩, -, rfl⟩ := Option.map_eq_some_iff.mp h
    trivial
  · obtain ⟨report, -, rfl⟩ := Option.map_eq_some_iff.mp h
    trivial

/-- The model's slots are sound, and the services have nothing left to tell. -/
structure Settled (c : Core) : Prop where
  slots : Slots c.now c.model.signals
  network : c.network.updates = []
  modem : c.modem.updates = []

namespace Core

variable (c : Core)

/-- Only the model learns from an update. -/
theorem apply_model (source : Source) (update : Update) (now : Nat) :
    (c.apply source update now).model =
        (c.model.apply ⟨c.model.generation, now, source, update⟩).2 ∧
      (c.apply source update now).network = c.network ∧
      (c.apply source update now).modem = c.modem := by
  unfold apply
  dsimp only
  split
  · split <;> exact ⟨rfl, rfl, rfl⟩
  · split <;> exact ⟨rfl, rfl, rfl⟩
  · exact ⟨rfl, rfl, rfl⟩
  · exact ⟨rfl, rfl, rfl⟩
  · exact ⟨rfl, rfl, rfl⟩

theorem finish_model (id : Int) (error : RadioError) (value : Option Value) :
    (c.finish id error value).model = c.model ∧
      (c.finish id error value).network = c.network ∧
      (c.finish id error value).modem = c.modem := by
  unfold finish
  split
  · exact ⟨rfl, rfl, rfl⟩
  · exact ⟨rfl, rfl, rfl⟩

end Core

/-- What an update does to the signals. -/
theorem model_apply_signals (model : Model) (source : Source) (update : Update) (now : Nat) :
    (model.apply ⟨model.generation, now, source, update⟩).2.signals =
      match update with
      | .signal rat signal => (Model.observeSignal rat signal now source model.signals).2
      | _ => model.signals := by
  unfold Model.apply
  rw [if_neg (fun hne => hne rfl)]
  cases update with
  | registration domain registration => cases domain <;> rfl
  | signal rat signal => rfl
  | radio radio => rfl
  | sim report =>
      dsimp only
      split <;> rfl

theorem model_apply_slots {now : Nat} {model : Model} (h : Slots now model.signals)
    (source : Source) {update : Update} (hfit : Fitting update) :
    Slots now (model.apply ⟨model.generation, now, source, update⟩).2.signals := by
  rw [model_apply_signals]
  cases update with
  | signal rat signal => exact h.observeSignal rat signal source hfit
  | _ => exact h

namespace Core

variable (c : Core)

theorem foldl_apply_services (updates : List (Source × Update)) (now : Nat) (c : Core) :
    (updates.foldl (fun c (update : Source × Update) => c.apply update.1 update.2 now) c).network =
        c.network ∧
      (updates.foldl (fun c (update : Source × Update) => c.apply update.1 update.2 now) c).modem =
        c.modem := by
  induction updates generalizing c with
  | nil => exact ⟨rfl, rfl⟩
  | cons update rest ih =>
      obtain ⟨-, hnetwork, hmodem⟩ := c.apply_model update.1 update.2 now
      obtain ⟨hnetwork', hmodem'⟩ := ih (c.apply update.1 update.2 now)
      exact ⟨hnetwork'.trans hnetwork, hmodem'.trans hmodem⟩

/-- Answers touch neither the model nor the services. -/
theorem foldl_finish_model {α : Type} (answers : List α) (id : α → Int) (error : α → RadioError)
    (value : α → Option Value) (c : Core) :
    (answers.foldl (fun c answer => c.finish (id answer) (error answer) (value answer)) c).model =
        c.model ∧
      (answers.foldl (fun c answer => c.finish (id answer) (error answer) (value answer)) c).network =
        c.network ∧
      (answers.foldl (fun c answer => c.finish (id answer) (error answer) (value answer)) c).modem =
        c.modem := by
  induction answers generalizing c with
  | nil => exact ⟨rfl, rfl, rfl⟩
  | cons answer rest ih =>
      obtain ⟨hmodel, hnetwork, hmodem⟩ := c.finish_model (id answer) (error answer) (value answer)
      obtain ⟨hmodel', hnetwork', hmodem'⟩ :=
        ih (c.finish (id answer) (error answer) (value answer))
      exact ⟨hmodel'.trans hmodel, hnetwork'.trans hnetwork, hmodem'.trans hmodem⟩

/-- **What is collected**: the model learns all updates, and nothing is left in the services. -/
theorem collect_model (now : Nat) :
    (c.collect now).model =
        ((c.network.updates ++ c.modem.updates).foldl
          (fun c (update : Source × Update) => c.apply update.1 update.2 now) c.collected).model ∧
      (c.collect now).network = c.collected.network ∧ (c.collect now).modem = c.collected.modem := by
  unfold collect
  dsimp only
  generalize hlearned : (c.network.updates ++ c.modem.updates).foldl
    (fun c (update : Source × Update) => c.apply update.1 update.2 now) c.collected = c'
  obtain ⟨hnetwork, hmodem⟩ :=
    foldl_apply_services (c.network.updates ++ c.modem.updates) now c.collected
  rw [hlearned] at hnetwork hmodem
  obtain ⟨hmodel', hnetwork', hmodem'⟩ := foldl_finish_model c.answers Answer.id Answer.error
    Answer.value c'
  exact ⟨hmodel', hnetwork'.trans hnetwork, hmodem'.trans hmodem⟩

end Core

/-- The model's slots are sound, and what the services have to tell keeps them so. -/
structure Telling (c : Core) : Prop where
  slots : Slots c.now c.model.signals
  network : ∀ update ∈ c.network.updates, Fitting update.2
  modem : ∀ update ∈ c.modem.updates, Fitting update.2

namespace Settled

variable {c : Core}

theorem telling (h : Settled c) : Telling c :=
  ⟨h.slots, by simp [h.network], by simp [h.modem]⟩

theorem apply (h : Settled c) (source : Source) {update : Update} (hfit : Fitting update) :
    Settled (c.apply source update c.now) := by
  obtain ⟨hmodel, hnetwork, hmodem⟩ := c.apply_model source update c.now
  refine ⟨?_, hnetwork ▸ h.network, hmodem ▸ h.modem⟩
  rw [hmodel, (c.apply_steady source update c.now).now]
  exact model_apply_slots h.slots source hfit

theorem observeAll (h : Settled c) (lines : List Text) :
    Settled (c.observeAll lines c.now) := by
  unfold Core.observeAll
  have hfit : ∀ update ∈ lines.filterMap State.observeLine, Fitting update := by
    intro update hupdate
    obtain ⟨line, -, hline⟩ := List.mem_filterMap.mp hupdate
    exact fitting_of_observeLine hline
  generalize hnow : c.now = now
  generalize lines.filterMap State.observeLine = updates at hfit
  induction updates generalizing c with
  | nil => exact h
  | cons update rest ih =>
      subst hnow
      exact ih (h.apply .query (hfit update (List.mem_cons_self ..)))
        (c.apply_steady .query update c.now).now
        fun other hother => hfit other (List.mem_cons_of_mem _ hother)

/-- The fields that matter are the same. -/
theorem of_same {c' : Core} (h : Settled c) (hnow : c'.now = c.now)
    (hmodel : c'.model = c.model) (hnetwork : c'.network = c.network) (hmodem : c'.modem = c.modem) :
    Settled c' := by
  refine ⟨?_, hnetwork ▸ h.network, hmodem ▸ h.modem⟩
  rw [hnow, hmodel]
  exact h.slots

theorem observe (h : Settled c) (event : Event) : Settled (c.observe event c.now) := by
  have heind : ∀ line, Settled (c.noteEind line) ∧ (c.noteEind line).now = c.now := by
    intro line
    refine ⟨?_, (c.noteEind_steady line).now⟩
    unfold Core.noteEind
    split
    · exact h.of_same rfl rfl rfl rfl
    · exact h
  unfold Core.observe
  split
  · rename_i line _
    obtain ⟨heind, hnow⟩ := heind line
    split
    · rename_i update hupdate
      have happlied := heind.apply .urc (fitting_of_observeLine hupdate)
      rwa [hnow] at happlied
    · exact heind
  · exact h

theorem finish (h : Settled c) (id : Int) (error : RadioError) (value : Option Value) :
    Settled (c.finish id error value) := by
  obtain ⟨hmodel, hnetwork, hmodem⟩ := c.finish_model id error value
  exact h.of_same (c.finish_steady id error value).now hmodel hnetwork hmodem

end Settled

/-- The loop over updates. -/
theorem foldl_apply_slots {now : Nat} (updates : List (Source × Update)) {c : Core}
    (h : Slots now c.model.signals) (hfit : ∀ update ∈ updates, Fitting update.2) :
    Slots now
      (updates.foldl (fun c (update : Source × Update) => c.apply update.1 update.2 now)
        c).model.signals := by
  induction updates generalizing c with
  | nil => exact h
  | cons update rest ih =>
      refine ih ?_ fun other hother => hfit other (List.mem_cons_of_mem _ hother)
      rw [(c.apply_model update.1 update.2 now).1]
      exact model_apply_slots h update.1 (hfit update (List.mem_cons_self ..))

/-- **Behind a collection nothing is left to tell.** -/
theorem Telling.collect {c : Core} (h : Telling c) : Settled (c.collect c.now) := by
  obtain ⟨hmodel, hnetwork, hmodem⟩ := c.collect_model c.now
  refine ⟨?_, by rw [hnetwork]; rfl, by rw [hmodem]; rfl⟩
  rw [(c.collect_steady c.now).now, hmodel]
  refine foldl_apply_slots _ (c := c.collected) h.slots fun update hupdate => ?_
  exact (List.mem_append.mp hupdate).elim (h.network update) (h.modem update)

namespace Settled

variable {c : Core}

theorem takeBoot (h : Settled c) (channel : Nat) (event : Event) :
    Settled (c.takeBoot channel event c.now).2 := by
  unfold Core.takeBoot
  split
  · rename_i response
    have hdropped : Settled (c.dropDeadline channel response.id) :=
      h.of_same rfl rfl rfl rfl
    dsimp only
    split
    · exact (hdropped.observeAll response.intermediates).of_same rfl rfl rfl rfl
    · exact hdropped
  · exact h

/-- An event of a channel leaves the core settled. -/
theorem handle (h : Settled c) (channel : Nat) (event : Event) (heard : Heard) :
    Settled (c.handle channel event heard c.now) := by
  have hnetwork : Telling (c.networkEvent channel event) := by
    refine ⟨h.slots, fun update hupdate => ?_, by simp [Core.networkEvent, h.modem]⟩
    rcases c.network.onEvent_updates channel event c.channels c.model update hupdate with
      hold | ⟨line, hline⟩
    · rw [h.network] at hold
      cases hold
    · exact fitting_of_observeLine hline
  have hcollected : Settled ((c.networkEvent channel event).collect c.now) :=
    hnetwork.collect
  have hnow : ((c.networkEvent channel event).collect c.now).now = c.now :=
    (Core.collect_steady _ _).now
  unfold Core.handle
  generalize (c.networkEvent channel event).collect c.now = c' at hcollected hnow ⊢
  have hmodem : Telling (c'.modemEvent channel event heard) := by
    refine ⟨hcollected.slots, by simp [Core.modemEvent, hcollected.network], fun update hupdate => ?_⟩
    rcases c'.modem.onEvent_updates channel event heard c'.channels update hupdate with
      hold | ⟨line, hline⟩ | ⟨radio, hradio⟩
    · rw [hcollected.modem] at hold
      cases hold
    · exact fitting_of_observeLine hline
    · rw [hradio]
      trivial
  have hend := hmodem.collect
  rwa [show (c'.modemEvent channel event heard).now = c.now from hnow] at hend

theorem execute (h : Settled c) (id : Int) (request : Request) :
    Settled (c.execute id request c.now) := by
  unfold Core.execute
  split
  · exact (h.finish ..).of_same rfl rfl rfl rfl
  · rename_i deadline _
    have hserved : Telling ((c.setDeadline id deadline).serve id request deadline) := by
      cases request with
      | network request =>
          refine ⟨h.slots, ?_, by simp [Core.serve, Core.setDeadline, h.modem]⟩
          simp [Core.serve, Core.setDeadline, Network.Network.submit_updates, h.network]
      | modem request =>
          refine ⟨h.slots, by simp [Core.serve, Core.setDeadline, h.network], ?_⟩
          simp [Core.serve, Core.setDeadline, Modem.Modem.submit_updates, h.modem]
    have hend := hserved.collect
    rwa [show ((c.setDeadline id deadline).serve id request deadline).now = c.now from
      (Core.serve_steady ..).now] at hend

theorem executeWaiting (h : Settled c) (id : Int) :
    Settled (c.executeWaiting c.now id) := by
  unfold Core.executeWaiting
  split
  · exact h.of_same rfl rfl rfl rfl
  · rename_i request _
    have hcleared : Settled (c.clearWaiting id) := h.of_same rfl rfl rfl rfl
    exact hcleared.execute id request

theorem restored (h : Settled c) (deadline : Nat) : Settled (c.restored deadline c.now) := by
  have htelling : Telling
      { c with
        network := (c.network.restore c.channels deadline).1
        channels := (c.network.restore c.channels deadline).2 } := by
    refine ⟨h.slots, ?_, by simp [h.modem]⟩
    simp [Network.Network.restore_updates, h.network]
  exact htelling.collect

theorem enter (h : Settled c) (id : Int) (request : Request) (serial : Int) (deadline : Nat) :
    Settled (c.enter id request serial deadline c.now) := by
  unfold Core.enter
  dsimp only
  split
  · have hentered : Settled
        { c with
          nextId := id
          invocations := c.invocations ++ [(id, ⟨serial, deadline, none⟩)] } :=
      h.of_same rfl rfl rfl rfl
    have hexecuted := (hentered.execute id request).telling.collect
    rwa [(Core.execute_steady ..).now] at hexecuted
  · have hentered : Settled
        { c with
          nextId := id
          invocations := c.invocations ++ [(id, ⟨serial, deadline, some request⟩)] } :=
      h.of_same rfl rfl rfl rfl
    exact hentered.telling.collect

theorem failAll (c : Core) (generation : Nat) :
    Settled (c.failAll generation c.now) := by
  have hnow : c.abandon.now = c.now := c.abandon_steady.now
  have htelling : Telling (c.abandon.renew generation) := by
    refine ⟨State.slots_nil _, ?_, ?_⟩
    · simp [Core.renew, Network.Network.reset, Network.Network.respondAll_eq]
    · simp [Core.renew, Modem.Modem.reset, Modem.Modem.respondAll_eq]
  have hcollected := htelling.collect
  rw [show (c.abandon.renew generation).now = c.now from hnow] at hcollected
  unfold Core.failAll
  generalize (c.abandon.renew generation).collect c.now = c' at hcollected ⊢
  exact hcollected.of_same rfl rfl rfl rfl

end Settled

/-- **The signals of the model are slots in every run.** -/
theorem settled_sound : Sound False (fun _ _ => True) fun _ c => Settled c where
  initial _ := ⟨State.slots_nil _, rfl, rfl⟩
  clocked h hnow := ⟨h.slots.later hnow, h.network, h.modem⟩
  refused h _ _ := h.of_same rfl rfl rfl rfl
  numbered h _ _ _ := h.of_same rfl rfl rfl rfl
  entered {c} h request serial _ _ _ _ := by
    have hnoted : Settled (c.noteSubmitted serial) := h.of_same rfl rfl rfl rfl
    exact hnoted.enter ..
  called h _ _ _ _ _ _ _ := h.of_same rfl rfl rfl rfl
  skipped h _ := h.of_same rfl rfl rfl rfl
  handled {c c' channel event todo answer} h _ hboot := by
    have htaken := (h.observe event.1).takeBoot channel event.1
    have hnow := (c.observe_steady event.1 c.now).now
    rw [hnow, hboot] at htaken
    have hnow' := ((c.observe event.1 c.now).takeBoot_now channel event.1 c.now).1
    rw [hboot, hnow] at hnow'
    rw [← hnow']
    exact ⟨htaken.handle .., fun _ => htaken.handle ..⟩
  stepTaken h _ _ := h.of_same rfl rfl rfl rfl
  booted h _ _ _ _ _ := h.of_same rfl rfl rfl rfl
  bootRefused h _ _ _ := h.of_same rfl rfl rfl rfl
  fallback h _ := h.of_same rfl rfl rfl rfl
  readied {c _} h _ _ _ := by
    have hready : Settled
        { c with bootActive := none, bootDeadline := none, ready := true } :=
      h.of_same rfl rfl rfl rfl
    exact hready.apply .transport trivial
  restored h _ _ _ := h.restored _
  executed h _ _ _ := h.executeWaiting _
  failed {c _ generation} _ _ _ _ := Settled.failAll c.halt generation
  exhausted h _ _ _ := h.of_same rfl rfl rfl rfl
  reconnected h _ _ _ := ⟨h.of_same rfl rfl rfl rfl, False.elim⟩
  begun h _ _ _ := h.of_same rfl rfl rfl rfl
  notified h _ := h.of_same rfl rfl rfl rfl
  lined h _ := h.of_same rfl rfl rfl rfl

theorem reach_settled {c : Core} (h : Reach c) : Settled c := settled_sound.reach h

/-! ### The answer and the model -/

theorem signal_eq (c : Core) : c.signal = Network.signal c.model := rfl

theorem reports_of_parsed {lines : List Text}
    (h : ∀ line ∈ lines, (State.ecsq line).toOption.isSome) :
    lines.filterMap State.observeLine =
        (reports lines).map (fun report => .signal report.1 report.2) ∧
      ∀ report ∈ reports lines, Kind report.1 report.2 := by
  induction lines with
  | nil => simp [reports]
  | cons line rest ih =>
      obtain ⟨rat, signal, hline, hkind⟩ := State.observeLine_ecsq (h line (List.mem_cons_self ..))
      obtain ⟨hrest, hkinds⟩ := ih fun other hother => h other (List.mem_cons_of_mem _ hother)
      have hcons : reports (line :: rest) = (rat, signal) :: reports rest := by
        simp [reports, hline]
      constructor
      · simp [hcons, hline, hrest]
      · rw [hcons]
        intro report hreport
        rcases List.mem_cons.mp hreport with rfl | hreport
        · exact hkind
        · exact hkinds report hreport

/-- The model learns what the reports say. -/
theorem foldl_apply_learned {now : Nat} (all : List (SignalRat × Signal)) (c : Core) :
    ((all.map fun report => ((Source.query, Update.signal report.1 report.2) : Source × Update)).foldl
        (fun c (update : Source × Update) => c.apply update.1 update.2 now) c).model.signals =
      learned now c.model.signals all := by
  induction all generalizing c with
  | nil => rfl
  | cons report rest ih =>
      rw [List.map_cons, List.foldl_cons, ih, (c.apply_model _ _ now).1, model_apply_signals]
      rfl

/-- What a signal query leads to, where its lines parse. -/
theorem readResult_signal (n : Network.Network) {lines : List Text} (hlines : lines ≠ [])
    (hparse : ∀ line ∈ lines, (State.ecsq line).toOption.isSome) (model : Model) :
    n.readResult .signal lines model =
      (.ok (.signal (Network.Network.signalAnswer model lines)),
        { n with
          updates := n.updates ++
            (lines.filterMap State.observeLine).map fun update => (.query, update) }) := by
  unfold Network.Network.readResult
  dsimp only
  rw [if_neg]
  rintro (hnil | hbad)
  · exact hlines hnil
  · obtain ⟨line, hline, hnone⟩ := List.any_eq_true.mp hbad
    have hsome := hparse line hline
    simp_all

/-- The callers of a signal query get its answer. -/
theorem networkEvent_signal (c : Core) {channel : Nat} {response : At.Response}
    {pending : Network.Pending} {lines : List Text} (hlines : lines ≠ [])
    (hparse : ∀ line ∈ lines, (State.ecsq line).toOption.isSome)
    (hpending : (c.network.pending.find? fun pending =>
      Network.Network.Pending.isOf pending channel response.id) = some pending)
    (hkind : pending.kind = .signal) (hok : response.result.toOption = some (text "OK"))
    (hresponse : response.intermediates = lines) :
    (c.networkEvent channel (.completed response)).network.responses =
        c.network.responses ++ pending.serials.map
          (Network.reply (.ok (.signal (Network.Network.signalAnswer c.model lines)))) ∧
      (c.networkEvent channel (.completed response)).network.updates =
        c.network.updates ++
          (lines.filterMap State.observeLine).map fun update => (.query, update) := by
  have herror : Network.Network.responseError response = .none := by
    unfold Network.Network.responseError
    cases hresult : response.result with
    | error error =>
        rw [hresult] at hok
        cases hok
    | ok line =>
        rw [hresult] at hok
        cases hok
        rfl
  unfold Core.networkEvent Network.Network.onEvent
  simp only [hpending, herror]
  unfold Network.Network.completeRead
  simp only [hkind, hresponse, ne_eq, not_true_eq_false, if_false, readResult_signal _ hlines hparse,
    Network.Network.respondAll_eq]
  exact ⟨rfl, rfl⟩

/-- **The answer to a signal query says what the model says behind it**, unless its last LTE line is
of the key 4096 and the key 8192 was observed at the same time with other values: then the answer
has the values of the line, and the model those of the key 8192. -/
theorem signal_answer_agrees {c : Core} (h : Reach c) {now : Nat}
    (hnow : ∀ entry ∈ c.model.signals, entry.2.observedMs ≤ now) {lines : List Text}
    (hlines : lines ≠ []) (hparse : ∀ line ∈ lines, (State.ecsq line).toOption.isSome) :
    ∃ strength network,
      c.network.readResult .signal lines c.model = (.ok (.signal strength), network) ∧
      (∀ channel response pending,
        (c.network.pending.find? fun pending =>
          Network.Network.Pending.isOf pending channel response.id) = some pending →
        pending.kind = .signal → response.result.toOption = some (text "OK") →
        response.intermediates = lines →
        (c.networkEvent channel (.completed response)).network.responses =
          c.network.responses ++ pending.serials.map (Network.reply (.ok (.signal strength))) ∧
        (c.networkEvent channel (.completed response)).network.updates = network.updates) ∧
      ({ c with network }.collect now).signal =
        Network.signal ({ c with network }.collect now).model ∧
      (strength = Network.signal ({ c with network }.collect now).model ↔
        ¬ Overtaken now c.model.signals (reports lines)) ∧
      ∀ report ∈ lastLte (reports lines), report.1 = lteKey →
        ∀ value ∈ rival now c.model.signals (reports lines),
          strength.lte = lteOf report.2 ∧
          (Network.signal ({ c with network }.collect now).model).lte = lteOf value := by
  have hsettled := reach_settled h
  have hslots : Slots now c.model.signals := ⟨hsettled.slots.sorted, hsettled.slots.kinds, hnow⟩
  obtain ⟨hupdates, hkinds⟩ := reports_of_parsed hparse
  refine ⟨_, _, readResult_signal _ hlines hparse _, ?_, rfl, ?_⟩
  · intro channel response pending hpending hkind hok hresponse
    exact networkEvent_signal c hlines hparse hpending hkind hok hresponse
  -- the signals behind the answer are the old ones with the reports
  have hlearned : Slots now (learned now c.model.signals (reports lines)) :=
    Network.learned_slots hslots hkinds
  generalize hnetwork : ({ c.network with
    updates := c.network.updates ++
      (lines.filterMap State.observeLine).map fun update => (.query, update) } : Network.Network) =
    network
  have hsignals : ({ c with network }.collect now).model.signals =
      learned now c.model.signals (reports lines) := by
    rw [(Core.collect_model { c with network } now).1]
    have hall : network.updates ++ c.modem.updates =
        (reports lines).map fun report =>
          ((Source.query, Update.signal report.1 report.2) : Source × Update) := by
      rw [← hnetwork, hsettled.network, hsettled.modem, hupdates]
      simp
    rw [hall]
    exact foldl_apply_learned _ _
  have hmodel : ∀ model : Model, model.signals = learned now c.model.signals (reports lines) →
      (Network.Network.signalAnswer c.model lines = Network.signal model ↔
        ¬ Overtaken now c.model.signals (reports lines)) := by
    intro model hmodel
    rw [Network.signal_eq (hmodel ▸ hlearned), hmodel, Network.signalAnswer_eq]
    have hold := Network.signal_eq hslots
    have hgsm := Network.learned_gsm hslots hkinds (Network.signal c.model) (by rw [hold])
    have hwcdma : ((reports lines).foldl Network.answerReport (Network.signal c.model)).wcdma =
        (Network.signal c.model).wcdma := Network.answer_wcdma _
    have hlte := Network.lte_agrees_iff hslots hkinds (Network.signal c.model) (by rw [hold])
    rw [← hlte, ← hgsm]
    constructor
    · intro heq
      exact congrArg Network.SignalStrength.lte heq
    · intro heq
      generalize (reports lines).foldl Network.answerReport (Network.signal c.model) = strength at heq hwcdma ⊢
      obtain ⟨gsm, lte, wcdma⟩ := strength
      dsimp only at heq hwcdma ⊢
      rw [heq, hwcdma, hold]
  refine ⟨hmodel _ hsignals, fun report hreport hkey value hvalue => ?_⟩
  rw [Network.signal_eq (hsignals ▸ hlearned), hsignals, Network.signalAnswer_eq]
  exact Network.lte_of_rival hslots hkinds _ hreport hkey hvalue

/-- A report of each LTE key. -/
def lateLine : Text := text "+ECSQ: 0,99,-400,0,0,-40,-400,8192,80,3"
def earlyLine : Text := text "+ECSQ: 0,99,-400,0,0,-40,-440,4096,80,3"

/-- The lines in the order of their keys, where the two agree, and in the other order. -/
theorem signal_answer_agrees_booted :
    ∃ c, Reach c ∧
      (∃ strength network,
        c.network.readResult .signal [earlyLine, lateLine] c.model =
          (.ok (.signal strength), network) ∧
        strength = Network.signal ({ c with network }.collect 0).model) ∧
      ∃ strength network,
        c.network.readResult .signal [lateLine, earlyLine] c.model =
          (.ok (.signal strength), network) ∧
        strength.lte = some ⟨some 110, some 10, some 200⟩ ∧
        (Network.signal ({ c with network }.collect 0).model).lte =
          some ⟨some 100, some 10, some 200⟩ := by
  obtain ⟨c, hreach, hsignals⟩ := ReachWith.of_script (fun _ _ => True) bootScript
    (fun c => c.model.signals = []) (by decide +kernel)
  have hlines : ∀ line ∈ [earlyLine, lateLine], (State.ecsq line).toOption.isSome := by
    decide +kernel
  have hnow : ∀ entry ∈ c.model.signals, entry.2.observedMs ≤ 0 := by simp [hsignals]
  refine ⟨c, hreach, ?_, ?_⟩
  · obtain ⟨strength, network, hread, -, -, hiff, -⟩ :=
      signal_answer_agrees hreach hnow (List.cons_ne_nil earlyLine [lateLine]) hlines
    refine ⟨strength, network, hread, hiff.mpr ?_⟩
    rw [hsignals]
    decide +kernel
  · obtain ⟨strength, network, hread, -, -, -, hvalues⟩ :=
      signal_answer_agrees hreach hnow (List.cons_ne_nil lateLine [earlyLine])
        (fun line hline => hlines line (by simp_all [or_comm]))
    obtain ⟨hanswer, hmodel⟩ := hvalues
      (lteKey, .lte (some 110) (some 10) (some 200)) (by decide +kernel) rfl
      (.lte (some 100) (some 10) (some 200)) (by rw [hsignals]; decide +kernel)
    exact ⟨strength, network, hread, hanswer, hmodel⟩

/-- What the query is answered with. -/
def overtakenStrength : Network.SignalStrength :=
  { Network.SignalStrength.default with lte := some ⟨some 110, some 10, some 200⟩ }

/-- The answer to a signal query in which the line of the later key comes first. -/
def overtakenAct : Act :=
  .readable 1 (ended lateLine ++ ended earlyLine ++ ended (text "OK")) 0

theorem signal_answer_overtaken :
    ∃ c, Reach c ∧ (∀ entry ∈ c.model.signals, entry.2.observedMs ≤ 0) ∧
      (∀ line ∈ [lateLine, earlyLine], (State.ecsq line).toOption.isSome) ∧
      (c.next overtakenAct).outputs =
        c.outputs ++ [.response 7 .none (some (.network (.signal overtakenStrength)))] ∧
      (c.next overtakenAct).signal ≠ overtakenStrength :=
  ReachWith.of_script (fun _ _ => True)
    (bootScript ++ [.submit (.network .getSignalStrength) 7 0, .written 1 12 8 0])
    (fun c => (∀ entry ∈ c.model.signals, entry.2.observedMs ≤ 0) ∧
      (∀ line ∈ [lateLine, earlyLine], (State.ecsq line).toOption.isSome) ∧
      (c.next overtakenAct).outputs =
        c.outputs ++ [.response 7 .none (some (.network (.signal overtakenStrength)))] ∧
      (c.next overtakenAct).signal ≠ overtakenStrength)
    (by decide +kernel)

end Mindone.Radio.Core
