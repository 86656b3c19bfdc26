import Mindone.Mux.ChatFeed

/-!
# Mindone.Mux.ChatHandOff

**The input of the dialogue may arrive in pieces.** However the bytes that come at one time
are cut, the same controller is reached and the same bytes are handed to the multiplexer:
a piece can be fed byte by byte (`feed_bytes`), and between two pieces an empty one changes
nothing (`Calm.feed_nil`). Once `AT+CMUX` is answered with `OK`, the bytes after the answer
are handed off without the line ends that close it.
-/

namespace Mindone.Mux.Chat

open Mindone.Lib

/-! ### What a piece leaves -/

/-- What is seen of a call of `feed`: the controller and the bytes for the multiplexer. -/
def outcome : EStateM.Result Error Controller Feed → Controller × List UInt8
  | .ok fed c => (c, fed.muxTail.getD [])
  | .error _ c => (c, [])

/-- What is seen of two calls, one after the other. -/
def andThen (first : Controller × List UInt8) (second : Controller → Controller × List UInt8) :
    Controller × List UInt8 :=
  ((second first.1).1, first.2 ++ (second first.1).2)

@[simp] theorem andThen_nil (c : Controller) (second : Controller → Controller × List UInt8) :
    andThen (c, []) second = second c := by
  simp [andThen]

/-- The bytes for the multiplexer, without the line ends of the answer before them. -/
def handed (c : Controller) (rest : List UInt8) : Controller × List UInt8 :=
  let skipped := if c.lineEnd then lineEndBytes rest else 0
  (if skipped < rest.length then { c with lineEnd := false } else c, rest.drop skipped)

theorem outcome_handOff (input : List UInt8) (offset : Nat) (c : Controller) :
    outcome (handOff input offset c) = handed c (input.drop offset) := by
  unfold handOff handed
  rw [run_get_bind]
  dsimp only
  generalize (if c.lineEnd = true then lineEndBytes (input.drop offset) else 0) = skipped
  by_cases hrest : skipped < (input.drop offset).length
  · rw [if_pos hrest, if_pos hrest, run_set_bind, List.drop_drop]
    rfl
  · rw [if_neg hrest, if_neg hrest, List.drop_drop]
    rfl

theorem handed_nil (c : Controller) : handed c [] = (c, []) := by
  simp [handed]

theorem lineEndBytes_cons (byte : UInt8) (rest : List UInt8) :
    lineEndBytes (byte :: rest) =
      if byte = 0x0d ∨ byte = 0x0a then lineEndBytes rest + 1 else 0 := by
  unfold lineEndBytes
  rw [List.takeWhile_cons]
  by_cases hbyte : byte = 0x0d ∨ byte = 0x0a
  · simp [hbyte]
  · simp only [not_or] at hbyte
    simp [hbyte]

theorem handed_plain {c : Controller} (h : c.lineEnd = false) (rest : List UInt8) :
    handed c rest = (c, rest) := by
  unfold handed
  rw [h]
  cases c
  cases h
  simp

theorem handed_cons (c : Controller) (byte : UInt8) (rest : List UInt8) :
    handed c (byte :: rest) = andThen (handed c [byte]) fun c' => handed c' rest := by
  cases hline : c.lineEnd with
  | false => simp [andThen, handed_plain hline]
  | true =>
      by_cases hbyte : byte = 0x0d ∨ byte = 0x0a
      · have hone : handed c [byte] = (c, []) := by
          simp [handed, hline, hbyte, lineEndBytes]
        rw [hone]
        simp [andThen, handed, hline, lineEndBytes_cons, hbyte]
      · have hone : ∀ more, handed c (byte :: more) = ({ c with lineEnd := false }, byte :: more) := by
          intro more
          simp [handed, hline, lineEndBytes_cons, hbyte]
        rw [hone, hone]
        simp [andThen, handed_plain]

theorem Over.handed {now : Nat} {c : Controller} (h : Over now c) (rest : List UInt8) :
    Over now (handed c rest).1 := by
  unfold Chat.handed
  dsimp only
  generalize (if c.lineEnd = true then lineEndBytes rest else 0) = skipped
  split
  · exact ⟨h.clock, h.token, h.phase⟩
  · exact h

/-! ### Cutting a piece -/

/-- The loop does not look back. -/
theorem feedLoop_later (now : Nat) (byte : UInt8) (input rest : List UInt8) (index : Nat)
    (c : Controller) :
    outcome (feedLoop now (byte :: input) (index + 1) rest c) =
      outcome (feedLoop now input index rest c) := by
  induction rest generalizing index c with
  | nil => rfl
  | cons first rest ih =>
      rw [feedLoop_cons, feedLoop_cons]
      cases hd : digest now first rest.head? c with
      | error e c' => rw [run_bind_error hd, run_bind_error hd]
      | ok finished c' =>
          rw [run_bind_ok hd, run_bind_ok hd]
          cases finished with
          | true =>
              show outcome (handOff _ _ c') = outcome (handOff _ _ c')
              rw [outcome_handOff, outcome_handOff, List.drop_succ_cons]
          | false => exact ih (index + 1) c'

/-- What is seen of one byte and the loop after it. -/
theorem outcome_feedLoop_cons (now : Nat) (byte : UInt8) (rest : List UInt8) (c : Controller) :
    outcome (feedLoop now (byte :: rest) 0 (byte :: rest) c) =
      match digest now byte rest.head? c with
      | .error _ c' => (c', [])
      | .ok true c' => handed c' rest
      | .ok false c' => outcome (feedLoop now rest 0 rest c') := by
  rw [feedLoop_cons]
  cases hd : digest now byte rest.head? c with
  | error e c' =>
      rw [run_bind_error hd]
      rfl
  | ok finished c' =>
      rw [run_bind_ok hd]
      cases finished with
      | true => exact outcome_handOff (byte :: rest) 1 c'
      | false => exact feedLoop_later now byte rest rest 0 c'

theorem outcome_feedLoop_nil (now : Nat) (c : Controller) :
    outcome (feedLoop now [] 0 [] c) = (c, []) := rfl

/-- What is seen of a piece: what its first byte decides, then the loop. -/
theorem outcome_feed (now : Nat) {input : List UInt8} (hlength : input.length ≤ chatBytes)
    (c : Controller) :
    outcome (feed now input c) =
      match arrive now input.head? c with
      | .error _ c' => (c', [])
      | .ok true c' => handed c' input
      | .ok false c' => outcome (feedLoop now input 0 input c') := by
  rw [feed_eq]
  cases ha : arrive now input.head? c with
  | error e c' =>
      rw [run_bind_error ha]
      rfl
  | ok finished c' =>
      rw [run_bind_ok ha]
      cases finished with
      | true => exact outcome_handOff input 0 c'
      | false => exact congrArg outcome (congrFun (if_neg (Nat.not_lt.mpr hlength)) c')

theorem outcome_feed_failed (now : Nat) {c : Controller} (h : c.phase = .failed)
    (input : List UInt8) : outcome (feed now input c) = (c, []) := by
  rw [feed_failed now h]
  rfl

theorem outcome_feed_over {now : Nat} {c : Controller} (h : Over now c) (input : List UInt8) :
    outcome (feed now input c) = handed c input := by
  rw [feed_over h]
  exact outcome_handOff input 0 c

/-- Where a result waits for its end, the first byte of the next piece decides. -/
theorem arrive_held {now : Nat} {c : Controller} (hc : Held now c) (first : UInt8)
    (hends : Ends (feedBoundary now [first]) c (Reaches now) fun _ c' => c'.phase = .failed) :
    arrive now (some first) c = feedBoundary now [first] c := by
  have hphase : c.phase ≠ .failed := by simp [hc.phase]
  unfold arrive
  rw [run_bind_ok (clock_now hc.clock hphase)]
  dsimp only [Option.toList_some]
  cases hb : feedBoundary now [first] c with
  | error e c' => exact run_bind_error hb
  | ok finished c' =>
      have hreached := hends.of_ok hb
      rw [run_bind_ok hb]
      cases finished with
      | true => rfl
      | false =>
          rw [if_neg (by simp), run_bind_ok (tick_still hreached.free (.inl hreached.time)),
            run_get_bind, decide_eq_false hreached.not_settled]
          rfl

/-- The look-ahead and the wait for the next piece agree. -/
theorem feedLoop_cut {now : Nat} {c : Controller} (hc : Open now c)
    (hclock : now + tokenSettleMs ≤ u64Max) (byte next : UInt8) (rest : List UInt8)
    (hlength : (next :: rest).length ≤ chatBytes) :
    outcome (feedLoop now (byte :: next :: rest) 0 (byte :: next :: rest) c) =
      andThen (outcome (feedLoop now [byte] 0 [byte] c)) fun c' =>
        outcome (feed now (next :: rest) c') := by
  rw [outcome_feedLoop_cons, outcome_feedLoop_cons]
  dsimp only [List.head?_cons, List.head?_nil]
  rcases digest_next hc byte next hclock with ⟨hsame, hends⟩ | ⟨c₁, hnone, hheld, hnext, hends⟩
  · rw [hsame]
    cases hd : digest now byte none c with
    | error e c' =>
        exact ((andThen_nil _ _).trans (outcome_feed_failed now (hends.of_error hd) _)).symm
    | ok finished c' =>
        have hreached := hends.of_ok hd
        cases finished with
        | true =>
            dsimp only
            rw [handed_nil, andThen_nil, outcome_feed_over hreached.1]
        | false =>
            dsimp only
            rw [outcome_feedLoop_nil, andThen_nil, feed_open hreached hlength]
  · have hfirst := arrive_held hheld next ((ends_congr hnext).mpr hends)
    rw [hnone]
    dsimp only
    rw [outcome_feedLoop_nil, andThen_nil, outcome_feed now hlength, List.head?_cons, hfirst, hnext]

theorem one_le_chatBytes (byte : UInt8) : [byte].length ≤ chatBytes := by
  simp [chatBytes]

/-- **The first byte of a piece may come alone.** -/
theorem feed_cut {now : Nat} {c : Controller} (hc : Sound c)
    (hclock : now + tokenSettleMs ≤ u64Max) (byte next : UInt8) (rest : List UInt8)
    (hlength : (byte :: next :: rest).length ≤ chatBytes) :
    outcome (feed now (byte :: next :: rest) c) =
      andThen (outcome (feed now [byte] c)) fun c' => outcome (feed now (next :: rest) c') := by
  have hends := arrive_some now byte hc
  have hrest : (next :: rest).length ≤ chatBytes := Nat.le_of_succ_le hlength
  rw [outcome_feed now hlength, outcome_feed now (one_le_chatBytes byte)]
  dsimp only [List.head?_cons]
  cases ha : arrive now (some byte) c with
  | error e c' =>
      exact ((andThen_nil _ _).trans (outcome_feed_failed now (hends.of_error ha) _)).symm
  | ok finished c' =>
      have hreached := hends.of_ok ha
      cases finished with
      | true =>
          dsimp only
          rw [handed_cons, andThen, andThen, outcome_feed_over (hreached.handed [byte])]
      | false => exact feedLoop_cut hreached.1 hclock byte next rest hrest

/-! ### Empty pieces -/

theorem clock_run (now : Nat) (c : Controller) :
    (∃ error c', clock now c = .error error c' ∧ c'.phase = .failed) ∨
      c.phase ≠ .failed ∧ clock now c = .ok () { c with lastNow := now } := by
  have hends := clock_spec now c
  cases hc : clock now c with
  | error e c' => exact .inl ⟨e, c', rfl, (hends.of_error hc).1⟩
  | ok u c' =>
      obtain ⟨hphase, -, rfl⟩ := hends.of_ok hc
      exact .inr ⟨hphase, rfl⟩

/-- Reading the clock twice is reading it once. -/
theorem tick_clock {now : Nat} {c : Controller} (hphase : c.phase ≠ .failed)
    (hclock : clock now c = .ok () { c with lastNow := now }) :
    tick now { c with lastNow := now } = tick now c := by
  have hagain : clock now { c with lastNow := now } = .ok () { c with lastNow := now } :=
    clock_now rfl hphase
  unfold tick
  rw [run_bind_ok hclock, run_bind_ok hagain]

/-- Where no byte ends a result, a piece begins with the clock. -/
theorem arrive_tick (now : Nat) {c : Controller} {first : Option UInt8}
    (h : c.tokenUntil = none ∨ first = none) :
    arrive now first c =
      (do
        tick now
        let c ← get
        return decide (c.phase = .settling ∨ c.phase = .ready) : Step Bool) c := by
  unfold arrive
  rcases clock_run now c with ⟨e, c', hclock, -⟩ | ⟨hphase, hclock⟩
  · have htick : tick now c = .error e c' := run_bind_error hclock
    rw [run_bind_error hclock, run_bind_error htick]
  · have hboundary : feedBoundary now first.toList { c with lastNow := now } =
        .ok false { c with lastNow := now } := by
      rcases h with htoken | rfl
      · exact feedBoundary_free now (c := { c with lastNow := now }) htoken _
      · unfold feedBoundary
        rw [run_get_bind]
        cases c.tokenUntil <;> rfl
    rw [run_bind_ok hclock, run_bind_ok hboundary]
    exact run_bind_congr (tick_clock hphase hclock)

theorem arrive_of_tick {now : Nat} {c c' : Controller} {first : Option UInt8}
    (h : c.tokenUntil = none ∨ first = none) (htick : tick now c = .ok () c') :
    arrive now first c = .ok (decide (c'.phase = .settling ∨ c'.phase = .ready)) c' := by
  rw [arrive_tick now h, run_bind_ok htick]
  rfl

/-- An empty piece reads the clock and no more. -/
theorem outcome_feed_nil (now : Nat) (c : Controller) :
    outcome (feed now [] c) = (endState (tick now c), []) := by
  rw [outcome_feed now (show ([] : List UInt8).length ≤ chatBytes from Nat.zero_le _)]
  cases htick : tick now c with
  | error e c' =>
      rw [List.head?_nil, arrive_tick now (.inr rfl), run_bind_error htick]
      rfl
  | ok u c' =>
      rw [List.head?_nil, arrive_of_tick (.inr rfl) htick]
      cases decide (c'.phase = .settling ∨ c'.phase = .ready) with
      | true => exact handed_nil c'
      | false => rfl

/-- Between two pieces an empty one changes nothing. -/
theorem Calm.feed_nil {now : Nat} {c : Controller} (h : Calm now c) :
    outcome (feed now [] c) = (c, []) := by
  rw [outcome_feed_nil]
  rcases h.2 with hover | hopen | hheld
  · rw [tick_still hover.free (hover.phase.symm.imp And.right id)]
    rfl
  · rw [tick_still hopen.free (.inl hopen.time)]
    rfl
  · obtain ⟨due, htoken, hdue⟩ := hheld.token
    have htick : tick now c = .ok () c := by
      unfold tick
      rw [run_bind_ok (clock_now hheld.clock (by simp [hheld.phase])), run_get_bind, htoken]
      dsimp only
      rw [if_pos hdue]
      rfl
    rw [htick]
    rfl

/-- A result that is waited for at this time has not been waited for long enough. -/
def Fresh (now : Nat) (c : Controller) : Prop := ∀ due, c.tokenUntil = some due → now < due

/-- An empty first piece is calm, unless a result has been waited for long enough. -/
theorem tick_calm {now : Nat} {c : Controller} (hc : Sound c) (hfresh : Fresh now c) :
    Ends (tick now) c (fun _ c' => Calm now c') fun _ c' => c'.phase = .failed := by
  rcases clock_run now c with ⟨e, c', hclock, hfailed⟩ | ⟨hphase, hclock⟩
  · have htick : tick now c = .error e c' := run_bind_error hclock
    exact (ends_of_error htick).mpr hfailed
  · rw [ends_congr (tick_clock hphase hclock).symm]
    refine (tick_spec now _).mono ?_ fun _ _ h => h.1
    intro _ c' hticked
    refine ⟨hticked.sound hc, ?_⟩
    cases htoken : c.tokenUntil with
    | none =>
        have hreached := hticked.reached ⟨rfl, htoken, hphase⟩
        split at hreached
        · exact .inl hreached
        · exact .inr (.inl hreached)
    | some due =>
        cases hticked with
        | held due' htoken' hdue =>
            exact .inr (.inr ⟨rfl, hc.reading hphase htoken, due', htoken', hdue⟩)
        | taken due' htoken' hdue _ _ => exact absurd (hfresh due' htoken') hdue
        | still htoken' _ => exact absurd (htoken.symm.trans htoken') (by simp)
        | begun htoken' _ => exact absurd (htoken.symm.trans htoken') (by simp)
        | retried htoken' _ _ => exact absurd (htoken.symm.trans htoken') (by simp)
        | settled htoken' _ => exact absurd (htoken.symm.trans htoken') (by simp)
        | ready htoken' _ => exact absurd (htoken.symm.trans htoken') (by simp)

/-- An empty piece before another one is not needed. -/
theorem feed_after_nil {now : Nat} {c : Controller} (hc : Sound c) (hfresh : Fresh now c)
    {input : List UInt8} (hlength : input.length ≤ chatBytes) :
    outcome (feed now input (endState (tick now c))) = outcome (feed now input c) := by
  rcases clock_run now c with ⟨e, c', hclock, hfailed⟩ | ⟨hphase, hclock⟩
  · have htick : tick now c = .error e c' := run_bind_error hclock
    have hfeed : feed now input c = .error e c' := run_bind_error hclock
    rw [htick, hfeed]
    exact outcome_feed_failed now hfailed input
  cases htoken : c.tokenUntil with
  | some due =>
      have hagain : clock now { c with lastNow := now } = .ok () { c with lastNow := now } :=
        clock_now rfl hphase
      have htick : tick now c = .ok () { c with lastNow := now } := by
        unfold tick
        rw [run_bind_ok hclock, run_get_bind, htoken]
        dsimp only
        rw [if_pos (hfresh due htoken)]
        rfl
      rw [htick]
      show outcome (feed now input { c with lastNow := now }) = _
      unfold feed
      rw [run_bind_ok hclock, run_bind_ok hagain]
  | none =>
      rw [outcome_feed now hlength c]
      cases htick : tick now c with
      | error e c' =>
          have hfailed := (tick_calm hc hfresh).of_error htick
          rw [arrive_tick now (.inl htoken), run_bind_error htick]
          exact outcome_feed_failed now hfailed input
      | ok u c' =>
          have htick' := (tick_clock hphase hclock).trans htick
          have hreached := ((tick_spec now _).of_ok htick').reached ⟨rfl, htoken, hphase⟩
          show outcome (feed now input c') = _
          rw [arrive_of_tick (.inl htoken) htick, outcome_feed now hlength c']
          split at hreached
          · rw [arrive_still hreached.free (hreached.phase.symm.imp And.right id)]
          · rw [arrive_still hreached.free (.inl hreached.time)]

/-! ### Any cut -/

/-- What is seen of an input that comes in pieces, all at one time. -/
def feedAll (now : Nat) : List (List UInt8) → Controller → Controller × List UInt8
  | [], c => (c, [])
  | piece :: pieces, c => andThen (outcome (feed now piece c)) (feedAll now pieces)

/-- Every byte is a piece. -/
def bytewise (input : List UInt8) : List (List UInt8) := input.map fun byte => [byte]

theorem andThen_congr {first : Controller × List UInt8}
    {second third : Controller → Controller × List UInt8} (h : second first.1 = third first.1) :
    andThen first second = andThen first third := by
  unfold andThen
  rw [h]

theorem andThen_assoc (first : Controller × List UInt8)
    (second third : Controller → Controller × List UInt8) :
    andThen (andThen first second) third = andThen first fun c => andThen (second c) third := by
  simp [andThen]

theorem andThen_pure (first : Controller × List UInt8) :
    andThen first (fun c => (c, [])) = first := by
  simp [andThen]

theorem feedAll_append (now : Nat) (pieces more : List (List UInt8)) (c : Controller) :
    feedAll now (pieces ++ more) c = andThen (feedAll now pieces c) (feedAll now more) := by
  induction pieces generalizing c with
  | nil => exact (andThen_nil c _).symm
  | cons piece pieces ih =>
      show andThen (outcome (feed now piece c)) (feedAll now (pieces ++ more)) = _
      rw [funext ih]
      exact (andThen_assoc _ _ _).symm

/-- A piece leaves the controller calm, or the dialogue has failed. -/
def Rested (now : Nat) (c : Controller) : Prop := Calm now c ∨ c.phase = .failed

theorem Rested.sound {now : Nat} {c : Controller} (h : Rested now c) : Sound c := by
  rcases h with hcalm | hfailed
  · exact hcalm.1
  · exact fun halive => absurd hfailed halive

theorem rested_feed (now : Nat) {c : Controller} (hc : Sound c) (byte : UInt8)
    (rest : List UInt8) : Rested now (outcome (feed now (byte :: rest) c)).1 := by
  have hends := feed_calm now hc byte rest
  cases hfeed : feed now (byte :: rest) c with
  | ok fed c' => exact .inl (hends.of_ok hfeed)
  | error e c' => exact .inr (hends.of_error hfeed)

theorem Rested.feed_nil {now : Nat} {c : Controller} (h : Rested now c) :
    outcome (feed now [] c) = (c, []) := by
  rcases h with hcalm | hfailed
  · exact hcalm.feed_nil
  · exact outcome_feed_failed now hfailed []

/-- **A piece can be fed byte by byte.** -/
theorem feed_bytes {now : Nat} (hclock : now + tokenSettleMs ≤ u64Max) (rest : List UInt8)
    {c : Controller} (hc : Sound c) (byte : UInt8)
    (hlength : (byte :: rest).length ≤ chatBytes) :
    outcome (feed now (byte :: rest) c) = feedAll now (bytewise (byte :: rest)) c := by
  induction rest generalizing c byte with
  | nil => exact (andThen_pure _).symm
  | cons next rest ih =>
      rw [feed_cut hc hclock byte next rest hlength]
      show andThen _ _ = andThen _ (feedAll now (bytewise (next :: rest)))
      exact andThen_congr (ih (rested_feed now hc byte []).sound next (Nat.le_of_succ_le hlength))

theorem bytewise_append (input more : List UInt8) :
    bytewise (input ++ more) = bytewise input ++ bytewise more := List.map_append

theorem Calm.clock {now : Nat} {c : Controller} (h : Calm now c) : c.lastNow = now := by
  rcases h.2 with hover | hopen | hheld
  · exact hover.clock
  · exact hopen.clock
  · exact hheld.clock

theorem rested_feedAll {now : Nat} (pieces : List (List UInt8)) {c : Controller}
    (hc : Rested now c) : Rested now (feedAll now pieces c).1 := by
  induction pieces generalizing c with
  | nil => exact hc
  | cons piece pieces ih =>
      refine ih ?_
      cases piece with
      | nil =>
          rw [hc.feed_nil]
          exact hc
      | cons byte rest => exact rested_feed now hc.sound byte rest

/-- From a calm controller on, only the bytes matter. -/
theorem Rested.feedAll_bytes {now : Nat} (hclock : now + tokenSettleMs ≤ u64Max)
    (pieces : List (List UInt8)) (hlength : ∀ piece ∈ pieces, piece.length ≤ chatBytes)
    {c : Controller} (hc : Rested now c) :
    feedAll now pieces c = feedAll now (bytewise pieces.flatten) c := by
  induction pieces generalizing c with
  | nil => rfl
  | cons piece pieces ih =>
      have hpiece := hlength piece (List.mem_cons_self ..)
      have hpieces : ∀ other ∈ pieces, other.length ≤ chatBytes :=
        fun other hother => hlength other (List.mem_cons_of_mem _ hother)
      show andThen (outcome (feed now piece c)) (feedAll now pieces) = _
      cases piece with
      | nil =>
          rw [hc.feed_nil, andThen_nil]
          exact ih hpieces hc
      | cons byte rest =>
          rw [List.flatten_cons, bytewise_append, feedAll_append,
            ← feed_bytes hclock rest hc.sound byte hpiece]
          exact andThen_congr (ih hpieces (rested_feed now hc.sound byte rest))

/-- Pieces of the input that can be fed one after the other at one time. The first of them is
not empty if a result has been waited for long enough: an empty one would end that result. -/
structure Cut (now : Nat) (c : Controller) (pieces : List (List UInt8)) : Prop where
  nonempty : pieces ≠ []
  length : ∀ piece ∈ pieces, piece.length ≤ chatBytes
  first : pieces.head? = some [] → Fresh now c

/-- What is seen of an input, however it is cut. -/
def whole (now : Nat) (input : List UInt8) (c : Controller) : Controller × List UInt8 :=
  if input = [] then (endState (tick now c), []) else feedAll now (bytewise input) c

theorem rested_tick {now : Nat} {c : Controller} (hc : Sound c) (hfresh : Fresh now c) :
    Rested now (endState (tick now c)) := by
  have hends := tick_calm hc hfresh
  cases htick : tick now c with
  | ok u c' => exact .inl (hends.of_ok htick)
  | error e c' => exact .inr (hends.of_error htick)

/-- **Only the bytes matter.** -/
theorem Cut.feedAll_eq {now : Nat} (hclock : now + tokenSettleMs ≤ u64Max) {c : Controller}
    (hc : Sound c) {pieces : List (List UInt8)} (hcut : Cut now c pieces) :
    feedAll now pieces c = whole now pieces.flatten c := by
  cases pieces with
  | nil => exact absurd rfl hcut.nonempty
  | cons piece pieces =>
      have hpiece := hcut.length piece (List.mem_cons_self ..)
      have hpieces : ∀ other ∈ pieces, other.length ≤ chatBytes :=
        fun other hother => hcut.length other (List.mem_cons_of_mem _ hother)
      show andThen (outcome (feed now piece c)) (feedAll now pieces) = _
      unfold whole
      cases piece with
      | cons byte rest =>
          rw [if_neg (by simp), List.flatten_cons, bytewise_append, feedAll_append,
            ← feed_bytes hclock rest hc byte hpiece]
          exact andThen_congr ((rested_feed now hc byte rest).feedAll_bytes hclock pieces hpieces)
      | nil =>
          have hfresh := hcut.first rfl
          rw [outcome_feed_nil, andThen_nil,
            (rested_tick hc hfresh).feedAll_bytes hclock pieces hpieces, List.flatten_cons,
            List.nil_append]
          cases hbytes : pieces.flatten with
          | nil => rfl
          | cons byte rest =>
              rw [if_neg (by simp)]
              show andThen _ _ = andThen _ _
              rw [feed_after_nil hc hfresh (one_le_chatBytes byte)]

/-! ### Every controller that can be reached -/

theorem outcome_fst (r : EStateM.Result Error Controller Feed) : (outcome r).1 = endState r := by
  cases r with
  | ok _ _ => rfl
  | error _ _ => rfl

theorem feed_sound (now : Nat) (input : List UInt8) {c : Controller} (hc : Sound c) :
    Ends (feed now input) c (fun _ => Sound) fun _ => Sound := by
  cases input with
  | cons byte rest =>
      exact (feed_calm now hc byte rest).mono (fun _ _ h => h.1)
        fun _ _ hfailed halive => absurd hfailed halive
  | nil =>
      have htick : Sound (endState (tick now c)) := ends_endState.mp
        ((tick_spec now c).mono (fun _ _ h => h.sound hc) fun _ _ h halive => absurd h.1 halive)
      rw [ends_endState, ← outcome_fst, outcome_feed_nil]
      exact htick

/-- While a command is written, no result is waited for. -/
theorem Sound.of_writing {c : Controller} (h : Sound c) (hphase : c.phase = .writing) :
    c.tokenUntil = none := by
  have hfree := h (by simp [hphase])
  rw [unframed_of_phase (by simp [hphase])] at hfree
  exact Option.isSome_eq_false_iff.mp hfree |> Option.isNone_iff_eq_none.mp

theorem Written.sound {now bytes : Nat} {c c' : Controller} (h : Written now bytes c c')
    (hc : Sound c) : Sound c' := by
  cases h with
  | part hphase _ _ _ =>
      exact sound_of_free (hc.of_writing hphase) (unframed_of_phase (by simp [Controller.note, hphase]))
  | whole hphase _ _ _ => exact sound_of_free (hc.of_writing hphase) (unframed_of_record rfl)

/-- Every reachable chat is sound. -/
theorem Reachable.sound {config : Config} {c : Controller} (h : Reachable config c) : Sound c := by
  refine h.invariant ?_ ?_
  · intro now nextWrite c hnew
    unfold Controller.new at hnew
    split at hnew
    · cases hnew
    split at hnew
    · cases hnew
    cases hnew
    exact sound_of_free rfl (unframed_of_phase (by simp))
  · intro c event hc
    have hdropped : ∀ (e : Error) c', Dropped c e c' → Sound c' :=
      fun e c' hdropped halive => absurd hdropped.1 halive
    cases event with
    | feed now input =>
        exact ends_bind.mpr ((feed_sound now input hc).mono (fun _ _ h => (ends_pure _).mpr h)
          fun _ _ h => h)
    | tick now => exact (tick_spec now c).mono (fun _ _ h => h.sound hc) hdropped
    | acceptWritten now token bytes =>
        exact (acceptWritten_spec now token bytes c).mono (fun _ _ h => h.sound hc) hdropped
    | writeFault now token fault =>
        exact (writeFault_spec now token fault c).mono (fun _ _ h => h.sound hc) hdropped
    | readFault now fault =>
        exact (readFault_spec now fault c).mono (fun _ _ h => h.sound hc) hdropped
    | cancel => exact ends_fail.mpr fun halive => absurd rfl halive
    | tokensTaken count => exact ends_modify.mpr hc

/-! ### After the answer -/

theorem feedAll_over {now : Nat} (input : List UInt8) {c : Controller} (hc : Over now c) :
    feedAll now (bytewise input) c = handed c input := by
  induction input generalizing c with
  | nil => exact (handed_nil c).symm
  | cons byte rest ih =>
      show andThen (outcome (feed now [byte] c)) (feedAll now (bytewise rest)) = _
      rw [handed_cons, outcome_feed_over hc]
      exact andThen_congr (ih (hc.handed [byte]))

/-- Only a dialogue that is over hands bytes to the multiplexer. -/
theorem outcome_feed_tail {now : Nat} {c : Controller} (hc : Sound c) (byte : UInt8) :
    (outcome (feed now [byte] c)).2 = [] ∨ Over now (outcome (feed now [byte] c)).1 := by
  have hends := arrive_some now byte hc
  rw [outcome_feed now (one_le_chatBytes byte)]
  dsimp only [List.head?_cons]
  cases ha : arrive now (some byte) c with
  | error e c' => exact .inl rfl
  | ok finished c' =>
      have hreached := hends.of_ok ha
      cases finished with
      | true => exact .inr (hreached.handed [byte])
      | false =>
          refine .inl ?_
          dsimp only
          rw [outcome_feedLoop_cons, List.head?_nil]
          cases digest now byte none c' with
          | error e c'' => rfl
          | ok over' c'' =>
              cases over' with
              | true => exact congrArg Prod.snd (handed_nil c'')
              | false => rfl

theorem feedAll_reading {now : Nat} (input : List UInt8) {c : Controller} (hc : Sound c)
    (hreading : (feedAll now (bytewise input) c).1.phase = .reading) :
    (feedAll now (bytewise input) c).2 = [] := by
  induction input generalizing c with
  | nil => rfl
  | cons byte rest ih =>
      show (outcome (feed now [byte] c)).2 ++ _ = []
      rcases outcome_feed_tail hc byte with hnone | hover
      · rw [hnone]
        exact ih (rested_feed now hc byte []).sound hreading
      · have hphase : (feedAll now (bytewise rest) (outcome (feed now [byte] c)).1).1.phase =
            .reading := hreading
        rw [feedAll_over rest hover] at hphase
        have hsettled := (hover.handed rest).settled
        rw [hphase] at hsettled
        simp at hsettled

/-- `OK` to `AT+CMUX` has been read. -/
structure Answered (c : Controller) : Prop where
  phase : c.phase = .reading
  command : c.command = some .cmux
  record : c.record = okText

theorem advance_cmux {now : Nat} {c : Controller} (hcommand : c.command = some .cmux)
    (htime : now + settleMs ≤ u64Max) :
    Ends (advance now) c (fun _ c' => c'.phase = .settling ∨ c'.phase = .ready)
      fun _ _ => False := by
  have hdeadline : deadlineAfter now settleMs = some (now + settleMs) := by
    unfold deadlineAfter checkedAdd
    rw [if_pos htime]
  unfold advance
  rw [ends_bind, ends_get, hcommand, hdeadline]
  dsimp only
  split
  · exact ends_set.mpr (.inr rfl)
  · exact ends_set.mpr (.inl rfl)

theorem takeRecord_answered {now : Nat} {c : Controller} (h : Answered c)
    (htime : now + settleMs ≤ u64Max) :
    Ends (takeRecord now) c (fun _ c' => c'.phase = .settling ∨ c'.phase = .ready)
      fun _ _ => False := by
  have hok : classify c.record = .ok := by rw [h.record]; rfl
  unfold takeRecord
  rw [ends_bind, ends_get]
  dsimp only
  rw [hok, ends_bind, ends_set, if_neg (by simp), if_neg (by simp [h.phase]), ends_bind,
    ends_modify, if_neg (by simp), if_neg (by simp), if_neg (by simp), if_pos rfl]
  exact advance_cmux h.command htime

/-- The byte that ends the answer. -/
theorem arrive_answered {now : Nat} {c : Controller} (hc : Sound c) (h : Answered c)
    (hclock : c.lastNow ≤ now) (htime : now + settleMs ≤ u64Max) {byte : UInt8}
    (hbyte : isPrintable byte = false) :
    ∃ c', arrive now (some byte) c = .ok true c' ∧ Over now c' ∧ c'.lineEnd = true := by
  have hphase : c.phase ≠ .failed := by simp [h.phase]
  have hfirst : clock now c = .ok () { c with lastNow := now } := by
    unfold clock
    rw [run_get_bind, if_neg hphase, if_neg (Nat.not_lt.mpr hclock)]
    rfl
  have hresult : c.unframedCmuxResult = true := by
    simp [Controller.unframedCmuxResult, h.phase, h.command, h.record]
  obtain ⟨due, hdue⟩ : ∃ due, c.tokenUntil = some due :=
    Option.isSome_iff_exists.mp ((hc hphase).trans hresult)
  -- the byte ends the answer, and the answer ends the dialogue
  have hover : Ends (feedBoundary now [byte]) { c with lastNow := now } (fun finished _ => finished = true)
      fun _ _ => False := by
    unfold feedBoundary
    rw [ends_bind, ends_get]
    dsimp only [List.head?_cons]
    rw [hdue]
    dsimp only
    rw [ends_bind, ends_set, if_pos (by simp [tokenBoundary, hbyte])]
    unfold completeLine
    rw [ends_bind]
    have hanswered : Answered { c with lastNow := now, tokenUntil := none } :=
      ⟨h.phase, h.command, h.record⟩
    refine (takeRecord_answered hanswered htime).mono ?_ fun _ _ h => h
    intro _ c' hsettled
    rw [ends_bind, ends_get, if_pos hsettled, ends_bind, ends_set, ends_pure]
  have hends := feedBoundary_some (c := { c with lastNow := now }) byte hc rfl hphase
  cases hb : feedBoundary now [byte] { c with lastNow := now } with
  | error e c' => exact (hover.of_error hb).elim
  | ok finished c' =>
      have htrue := hover.of_ok hb
      subst htrue
      refine ⟨c', ?_, hends.of_ok hb⟩
      unfold arrive
      rw [run_bind_ok hfirst]
      exact run_bind_ok hb

theorem lineEndBytes_drop (rest : List UInt8) :
    rest.drop (lineEndBytes rest) = rest.dropWhile fun byte => byte == 0x0d || byte == 0x0a := by
  induction rest with
  | nil => rfl
  | cons byte rest ih =>
      rw [lineEndBytes_cons, List.dropWhile_cons]
      by_cases hbyte : byte = 0x0d ∨ byte = 0x0a
      · rw [if_pos hbyte, if_pos (by simpa using hbyte), List.drop_succ_cons, ih]
      · rw [if_neg hbyte, if_neg (by simpa using hbyte), List.drop_zero]

/-- **The bytes after the answer are handed off**, but for the line ends that close it. -/
theorem feedAll_answered {now : Nat} {c : Controller} (hc : Sound c) (h : Answered c)
    (hclock : c.lastNow ≤ now) (htime : now + settleMs ≤ u64Max) {byte : UInt8}
    (hbyte : isPrintable byte = false) (rest : List UInt8) :
    Over now (feedAll now (bytewise (byte :: rest)) c).1 ∧
      (feedAll now (bytewise (byte :: rest)) c).2 =
        (byte :: rest).dropWhile fun byte => byte == 0x0d || byte == 0x0a := by
  obtain ⟨c', harrive, hover, hline⟩ := arrive_answered hc h hclock htime hbyte
  have hall : feedAll now (bytewise (byte :: rest)) c = handed c' (byte :: rest) := by
    show andThen (outcome (feed now [byte] c)) (feedAll now (bytewise rest)) = _
    rw [outcome_feed now (one_le_chatBytes byte), List.head?_cons, harrive, handed_cons]
    exact andThen_congr (feedAll_over rest (hover.handed [byte]))
  rw [hall]
  refine ⟨hover.handed _, ?_⟩
  rw [← lineEndBytes_drop]
  unfold handed
  rw [if_pos hline]

/-- **The hand-off to the multiplexer is exact.** However an input is cut, the same controller
is reached and the same bytes are handed off; and once `OK` to `AT+CMUX` is followed by a byte
that ends it, these are the bytes after the answer without the line ends that close it. -/
theorem handOff_exact {config : Config} {c : Controller} (hreach : Reachable config c) {now : Nat}
    (hclock : now + commandTimeoutMs ≤ u64Max) :
    (∀ pieces pieces', Cut now c pieces → Cut now c pieces' → pieces.flatten = pieces'.flatten →
      feedAll now pieces c = feedAll now pieces' c) ∧
    ∀ pieces answer byte rest, Cut now c pieces → pieces.flatten = answer ++ byte :: rest →
      c.lastNow ≤ now → Answered (feedAll now (bytewise answer) c).1 → isPrintable byte = false →
      ((feedAll now pieces c).1.phase = .settling ∨ (feedAll now pieces c).1.phase = .ready) ∧
        (feedAll now pieces c).2 =
          (byte :: rest).dropWhile fun byte => byte == 0x0d || byte == 0x0a := by
  have hsound := hreach.sound
  have htoken : now + tokenSettleMs ≤ u64Max :=
    le_trans (Nat.add_le_add_left (by decide) now) hclock
  have hsettle : now + settleMs ≤ u64Max :=
    le_trans (Nat.add_le_add_left (by decide) now) hclock
  refine ⟨?_, ?_⟩
  · intro pieces pieces' hcut hcut' hbytes
    rw [hcut.feedAll_eq htoken hsound, hcut'.feedAll_eq htoken hsound, hbytes]
  · intro pieces answer byte rest hcut hbytes hlast hanswered hbyte
    have hsplit : feedAll now pieces c =
        andThen (feedAll now (bytewise answer) c) (feedAll now (bytewise (byte :: rest))) := by
      rw [hcut.feedAll_eq htoken hsound, hbytes, whole, if_neg (by simp), bytewise_append,
        feedAll_append]
    have hbefore : Sound (feedAll now (bytewise answer) c).1 ∧
        (feedAll now (bytewise answer) c).1.lastNow ≤ now := by
      cases answer with
      | nil => exact ⟨hsound, hlast⟩
      | cons first more =>
          have hrested : Rested now (feedAll now (bytewise (first :: more)) c).1 :=
            rested_feedAll (bytewise more) (rested_feed now hsound first [])
          refine ⟨hrested.sound, ?_⟩
          rcases hrested with hcalm | hfailed
          · exact le_of_eq hcalm.clock
          · exact absurd (hfailed.symm.trans hanswered.phase) (by simp)
    have hnone := feedAll_reading answer hsound hanswered.phase
    obtain ⟨hover, htail⟩ := feedAll_answered hbefore.1 hanswered hbefore.2 hsettle hbyte rest
    rw [hsplit]
    refine ⟨hover.settled, ?_⟩
    show _ ++ _ = _
    rw [hnone, htail, List.nil_append]

/-- A dialogue without a PIN. -/
def plainConfig : Config := { frameLimit := 128, baudIndex := 5, userBuild := false, pin := none }

/-- The calls up to an answer to `AT+CMUX` that has no line end. -/
def plainScript : List Event :=
  let ok := okText ++ [0x0d]
  [.tick 20000, .acceptWritten 20000 1 3, .feed 20000 ok, .acceptWritten 20000 2 4,
    .feed 20000 ok, .acceptWritten 20000 3 5, .feed 20000 ok, .acceptWritten 20000 4 18,
    .feed 20000 okText]

/-- The answer of the script ends with the line end that follows, cut anywhere. -/
theorem handOff_exact_scripted :
    ∃ c, Reachable plainConfig c ∧
      feedAll 20010 [[0x0d], [0x0a, 0xf9]] c = feedAll 20010 [[], [0x0d, 0x0a], [0xf9]] c ∧
      (feedAll 20010 [[0x0d], [0x0a, 0xf9]] c).2 = [0xf9] := by
  obtain ⟨c, hreach, hlast, htoken, hphase, hcommand, hrecord⟩ :=
    Reachable.of_script plainConfig plainScript (fun c => c.lastNow = 20000 ∧ c.tokenUntil = some 20020 ∧
      c.phase = .reading ∧ c.command = some .cmux ∧ c.record = okText) (by decide +kernel)
  have hfresh : Fresh 20010 c := by
    intro due hdue
    rw [htoken] at hdue
    cases hdue
    decide
  obtain ⟨hsame, htail⟩ := handOff_exact hreach (show 20010 + commandTimeoutMs ≤ u64Max by decide)
  have hcut : Cut 20010 c [[0x0d], [0x0a, 0xf9]] := ⟨by simp, by decide, fun _ => hfresh⟩
  refine ⟨c, hreach, hsame _ _ hcut ⟨by simp, by decide, fun _ => hfresh⟩ rfl, ?_⟩
  exact (htail _ [] 0x0d [0x0a, 0xf9] hcut rfl (by rw [hlast]; decide)
    ⟨hphase, hcommand, hrecord⟩ (by decide)).2

/-- Where the answer has been waited for long enough, an empty piece ends it, and a printable
byte goes on with it. -/
theorem handOff_empty_piece :
    ¬ ∀ (config : Config) (c : Controller) (now : Nat) (pieces pieces' : List (List UInt8)),
      Reachable config c → now + commandTimeoutMs ≤ u64Max →
      (∀ piece ∈ pieces, piece.length ≤ chatBytes) →
      (∀ piece ∈ pieces', piece.length ≤ chatBytes) → pieces.flatten = pieces'.flatten →
      (feedAll now pieces c).1.phase = (feedAll now pieces' c).1.phase ∧
        (feedAll now pieces c).2 = (feedAll now pieces' c).2 := by
  intro hall
  obtain ⟨c, hreach, hphase, hphase'⟩ :=
    Reachable.of_script plainConfig plainScript (fun c => (feedAll 20100 [[], [0x41]] c).1.phase = .settling ∧
      (feedAll 20100 [[0x41]] c).1.phase = .reading) (by decide +kernel)
  have hsame := (hall plainConfig c 20100 [[], [0x41]] [[0x41]] hreach (by decide) (by decide)
    (by decide) rfl).1
  rw [hphase, hphase'] at hsame
  cases hsame

end Mindone.Mux.Chat
