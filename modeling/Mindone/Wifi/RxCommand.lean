import Mathlib.Tactic.IntervalCases
import Mindone.Wifi.RxTable

/-!
# Mindone.Wifi.RxCommand

The commands to the receive filter (`rxfilter_firmware_command` and `reply` of
`tools/wifi/rxfilter-firmware.c`, `rxfilter-query.c`). A SET replaces what a BSS has; a query is
answered with an event that the host matches against what it asked.

`update` programs the hardware from the entries and does not change the table, so that it is left
out; the buffer of a reply is what is sent of it. A SET takes the pointer to the table as set,
without a check: on a null pointer the command has no outcome here.
-/

namespace Mindone.Wifi

open Mindone.Lib

/-! ### Replies -/

/-- The bytes that `store32` writes. -/
def wordBytes (word : BitVec 32) : List Byte :=
  [word.setWidth 8, (word >>> 8).setWidth 8, (word >>> 16).setWidth 8, (word >>> 24).setWidth 8]

/-- A byte of a word: `(uint32_t)byte << shift` -/
def placed (byte : Byte) (shift : Nat) : BitVec 32 := byte.setWidth 32 <<< shift

/-- The three control bytes of a BSS in one word. -/
def baseline (t : Table) (bss : Nat) : BitVec 32 :=
  placed (t (0xf4 + bss)) 0 ||| placed (t (0xf8 + bss)) 8 ||| placed (t (0xfc + bss)) 16

/-- `reply`: what it returns, and the event that it sends. -/
def reply (allocated : Bool) (state : Option Table) (header : Buffer) (status : Byte)
    (nonce : BitVec 32) (extended : Bool) : BitVec 32 × Option (List Byte) :=
  if ¬ allocated then (0x103, none)
  else
    let size : BitVec 32 := if extended then 40 else 32
    let version : BitVec 32 := if extended then 1 else 0
    let event := wordBytes (0xe0000000 ||| (size - 20)) ++
      wordBytes (0xfd ||| placed (header 7) 8) ++
      wordBytes (placed status 0 ||| placed (header 4) 8 ||| version <<< 16)
    let baseline := if status = statusInvalid then 0 else
      state.elim 0 fun t => baseline t (header 36).toNat
    (0, some (if extended then event ++ wordBytes nonce ++ wordBytes baseline else event))

/-- `rxfilter_query_response_matches` -/
def rxfilterQueryResponseMatches (eid sequence : Byte) (payload : Option Buffer) (payloadSize : Nat)
    (expectedSequence expectedBss expectedPolicy : Byte) (expectedNonce : BitVec 32) : Bool :=
  match payload with
  | none => false
  | some payload =>
      if eid ≠ 0xfd ∨ sequence ≠ expectedSequence ∨ payloadSize ≠ 12 ∨ expectedBss ≥ 4 ∨
          ¬ (expectedPolicy = 0 ∨ (expectedPolicy ≥ 4 ∧ expectedPolicy ≤ 7)) ∨ payload 1 ≠ 0xc1 ∨
          payload 2 ≠ 1 ∨ payload 3 ≠ 0 ∨ payload 11 ≠ 0 then
        false
      else
        let nonce := placed (payload 4) 0 ||| placed (payload 5) 8 ||| placed (payload 6) 16 |||
          placed (payload 7) 24
        nonce = expectedNonce ∧ payload 0 = 0xa0 ||| (expectedBss <<< 3) ||| expectedPolicy ∧
          rxfilterQueryControlStatus (payload 8) (payload 9) expectedBss = payload 0

/-- An event as the host hands it to the check: the type and the sequence number of the header, and
what follows the header. -/
def eventMatches (event : List Byte) : Byte → Byte → Byte → BitVec 32 → Bool :=
  rxfilterQueryResponseMatches (event.getD 4 0) (event.getD 5 0)
    (some fun i => event.getD (8 + i) 0) (event.length - 8)

/-! ### Commands -/

/-- What a command does. -/
structure Outcome where
  code : BitVec 32
  sent : Option (List Byte)
  table : Option Table

/-- The loop over the addresses, with the number that are left: whether one was not stored. -/
def seekAll (bss : Nat) (payload : Buffer) : Nat → Nat → Table → Bool × Table
  | 0, _, t => (false, t)
  | left + 1, i, t =>
      match rxfilterLegacyTableSeek bss (payload.from (8 + 6 * i)) t with
      | (true, t) => seekAll bss payload left (i + 1) t
      | (false, t) => (true, t)

/-- The mode in the upper half of a control byte. -/
def modeOf (control : Byte) : Byte := control >>> 4

/-- Both control bytes have the same extended mode. -/
def isFamily (payload : Buffer) : Bool :=
  8 ≤ modeOf (payload 5) ∧ modeOf (payload 5) ≤ 11 ∧ modeOf (payload 5) = modeOf (payload 6)

/-- The `i`th control byte. -/
def controlByte (payload : Buffer) (failed : Bool) (i : Nat) : Byte :=
  if isFamily payload ∧ i < 2 then (modeOf (payload 5) <<< 4) ||| 3
  else if failed then 0x53
  else
    let fallback : Byte := if i = 0 then 0x53 else 0x42
    let value := payload (5 + i)
    let value := if value &&& 15 = 0 then value ||| (fallback &&& 15) else value
    if value < 16 then value ||| (fallback &&& 0xf0) else value

/-- The control bytes of a BSS are written. -/
def storeControls (bss : Nat) (payload : Buffer) (failed : Bool) (t : Table) : Table :=
  (List.range 3).foldl (fun t i => t.store (0xf4 + bss + 4 * i) (controlByte payload failed i)) t

/-- The table of a BSS without addresses, and the new count. -/
def counted (t : Table) (payload : Buffer) : Table :=
  (rxfilterLegacyTableReset (payload 4).toNat t).store32 (0xe4 + 4 * (payload 4).toNat)
    (readLe32 payload 0)

/-- The addresses of a SET are stored. -/
def storeAddresses (t : Table) (payload : Buffer) : Bool × Table :=
  if readLe32 payload 0 = 255 then (true, counted t payload)
  else seekAll (payload 4).toNat payload (readLe32 payload 0).toNat 0 (counted t payload)

/-- What a SET that is not rejected does. -/
def setFilter (t : Table) (payload : Buffer) : Table :=
  let (failed, t) := storeAddresses t payload
  storeControls (payload 4).toNat payload failed t

/-- `total` -/
def totalOf (header : Buffer) : Nat := (readLe16 header 0).toNat

/-- The status of a query. -/
def queryStatus (state : Option Table) (header payload : Buffer) : Byte :=
  match state with
  | none => statusInvalid
  | some t =>
      if totalOf header = 44 ∧ readLe32 payload 0 = 0 ∧ payload 4 < 4 ∧ payload 7 = 1 then
        rxfilterQueryControlStatus (t (0xf4 + (payload 4).toNat)) (t (0xf8 + (payload 4).toNat))
          (payload 4)
      else statusInvalid

/-- The code of a rejection. -/
def rejectCode : BitVec 32 := 0xc0000001

/-- `rxfilter_firmware_command` -/
def rxfilterFirmwareCommand (allocated : Bool) (state : Option Table) (raw : Option Buffer) :
    Option Outcome :=
  let rejected : Outcome := ⟨rejectCode, none, state⟩
  match raw with
  | none => some rejected
  | some raw =>
      let header := raw.from 0x20
      if totalOf header < 40 then some rejected
      else
        let payload := header.from 32
        if header 6 = 0 ∧ payload 5 = 0x52 ∧ payload 6 = 0x58 then
          let nonce := if totalOf header ≥ 44 then readLe32 payload 8 else 0
          let (code, sent) :=
            reply allocated state header (queryStatus state header payload) nonce true
          some ⟨code, sent, state⟩
        else if payload 4 ≥ 4 then some rejected
        else if header 6 = 0 then some ⟨0, none, state⟩
        else if readLe32 payload 0 ≠ 255 ∧
            (readLe32 payload 0).toNat > (totalOf header - 40) / 6 then
          some rejected
        else state.map fun t => ⟨0, none, some (setFilter t payload)⟩

/-! ### Requests -/

/-- A command, and whether there is a buffer for its reply. -/
structure Request where
  raw : Option Buffer
  allocated : Bool

/-- The table behind a command. -/
def Table.after (t : Table) (r : Request) : Table :=
  ((rxfilterFirmwareCommand r.allocated (some t) r.raw).bind Outcome.table).getD t

/-- The header is of a SET that is accepted. -/
def isAccepted (header : Buffer) : Bool :=
  40 ≤ totalOf header ∧ header 6 ≠ 0 ∧ header.from 32 4 < 4 ∧
    (readLe32 (header.from 32) 0 = 255 ∨
      (readLe32 (header.from 32) 0).toNat ≤ (totalOf header - 40) / 6)

/-- The request is an accepted SET for the BSS. -/
def Request.Sets (r : Request) (bss : Nat) (payload : Buffer) : Prop :=
  ∃ raw, r.raw = some raw ∧ isAccepted (raw.from 0x20) = true ∧
    payload = (raw.from 0x20).from 32 ∧ (payload 4).toNat = bss

/-- The request is a query. -/
def Request.Asks (r : Request) (header : Buffer) : Prop :=
  ∃ raw, r.raw = some raw ∧ header = raw.from 0x20 ∧ 40 ≤ totalOf header ∧ header 6 = 0 ∧
    header.from 32 5 = 0x52 ∧ header.from 32 6 = 0x58

/-- The query is valid, and for the BSS. -/
def isValidQuery (header : Buffer) (bss : Nat) : Bool :=
  totalOf header = 44 ∧ readLe32 (header.from 32) 0 = 0 ∧ header.from 32 4 < 4 ∧
    header.from 32 7 = 1 ∧ (header.from 32 4).toNat = bss

/-! ### What a command does -/

section Command

variable {t : Table} {r : Request}

theorem command_set {header raw : Buffer} (hheader : header = raw.from 0x20)
    (h : isAccepted header = true) (allocated : Bool) (t : Table) :
    rxfilterFirmwareCommand allocated (some t) (some raw) =
      some ⟨0, none, some (setFilter t (header.from 32))⟩ := by
  subst hheader
  unfold isAccepted at h
  rw [decide_eq_true_iff] at h
  obtain ⟨htotal, hset, hbss, hcount⟩ := h
  unfold rxfilterFirmwareCommand
  dsimp only
  rw [if_neg (Nat.not_lt.mpr htotal), if_neg fun h => hset h.1, if_neg (BitVec.not_le.mpr hbss),
    if_neg hset, if_neg fun h => hcount.elim h.1 fun hle => absurd h.2 (Nat.not_lt.mpr hle)]
  rfl

theorem command_query {header raw : Buffer} (hheader : header = raw.from 0x20)
    (htotal : 40 ≤ totalOf header) (hset : header 6 = 0) (hr : header.from 32 5 = 0x52)
    (hx : header.from 32 6 = 0x58) (allocated : Bool) (state : Option Table) :
    rxfilterFirmwareCommand allocated state (some raw) =
      let answer := reply allocated state header (queryStatus state header (header.from 32))
        (if totalOf header ≥ 44 then readLe32 (header.from 32) 8 else 0) true
      some ⟨answer.1, answer.2, state⟩ := by
  subst hheader
  unfold rxfilterFirmwareCommand
  dsimp only
  rw [if_neg (Nat.not_lt.mpr htotal), if_pos ⟨hset, hr, hx⟩]

theorem reply_code (allocated : Bool) (state : Option Table) (header : Buffer) (status : Byte)
    (nonce : BitVec 32) (extended : Bool) :
    (reply allocated state header status nonce extended).1 ≠ rejectCode := by
  unfold reply
  split
  · exact show (0x103 : BitVec 32) ≠ rejectCode by decide
  · exact show (0 : BitVec 32) ≠ rejectCode by decide

/-- A command that is no accepted SET leaves the table alone, and says nothing when it is
rejected. -/
theorem command_other (hnot : ∀ raw, r.raw = some raw → isAccepted (raw.from 0x20) = false)
    (t : Table) : ∃ code sent, rxfilterFirmwareCommand r.allocated (some t) r.raw =
      some ⟨code, sent, some t⟩ ∧ (code = rejectCode → sent = none) := by
  cases hraw : r.raw with
  | none => exact ⟨rejectCode, none, rfl, fun _ => rfl⟩
  | some raw =>
      have hrefused := hnot raw hraw
      unfold isAccepted at hrefused
      rw [decide_eq_false_iff_not] at hrefused
      unfold rxfilterFirmwareCommand
      dsimp only
      split
      · exact ⟨rejectCode, none, rfl, fun _ => rfl⟩
      · rename_i htotal
        split
        · exact ⟨_, _, rfl, fun hcode => absurd hcode (reply_code _ _ _ _ _ _)⟩
        · split
          · exact ⟨rejectCode, none, rfl, fun _ => rfl⟩
          · rename_i hbss
            split
            · exact ⟨0, none, rfl, fun _ => rfl⟩
            · rename_i hset
              split
              · exact ⟨rejectCode, none, rfl, fun _ => rfl⟩
              · rename_i hcount
                refine absurd ⟨Nat.not_lt.mp htotal, hset, BitVec.not_le.mp hbss, ?_⟩ hrefused
                by_cases hall : readLe32 ((raw.from 0x20).from 32) 0 = 255
                · exact .inl hall
                · exact .inr (Nat.not_lt.mp fun hgt => hcount ⟨hall, hgt⟩)

theorem after_sets {bss : Nat} {payload : Buffer} (h : r.Sets bss payload) (t : Table) :
    t.after r = setFilter t payload := by
  obtain ⟨raw, hraw, haccepted, rfl, -⟩ := h
  unfold Table.after
  rw [hraw, command_set rfl haccepted]
  rfl

theorem after_other (hnot : ∀ bss payload, ¬ r.Sets bss payload) (t : Table) : t.after r = t := by
  obtain ⟨code, sent, hcommand, -⟩ := command_other (r := r) (fun raw hraw =>
    Bool.eq_false_iff.mpr fun haccepted => hnot _ _ ⟨raw, hraw, haccepted, rfl, rfl⟩) t
  unfold Table.after
  rw [hcommand]
  rfl

theorem Request.Sets.lt {bss : Nat} {payload : Buffer} (h : r.Sets bss payload) : bss < 4 := by
  obtain ⟨raw, -, haccepted, rfl, rfl⟩ := h
  unfold isAccepted at haccepted
  rw [decide_eq_true_iff] at haccepted
  exact haccepted.2.2.1

end Command

/-! ### A SET -/

/-- The addresses of a SET. -/
def addressesOf (payload : Buffer) : List (List Byte) :=
  (List.range (readLe32 payload 0).toNat).map fun i => addressBytes (payload.from (8 + 6 * i))

section Set

variable {bss : Nat} {payload : Buffer} {t : Table}

/-- What storing addresses keeps. -/
structure Stores (t t' : Table) : Prop where
  sound : t'.Sound
  below : ∀ p < 0x100, t' p = t p

/-- **The loop claims the addresses one after the other.** -/
theorem seekAll_spec (hbss : bss < 4) (payload : Buffer) (left i : Nat) (hsound : t.Sound) :
    Stores t (seekAll bss payload left i t).2 ∧
      (!(seekAll bss payload left i t).1, slots (seekAll bss payload left i t).2) =
        Slots.claimAll bss
          ((List.range' i left).map fun k => addressBytes (payload.from (8 + 6 * k))) (slots t) := by
  induction left generalizing i t with
  | zero => exact ⟨⟨hsound, fun _ _ => rfl⟩, rfl⟩
  | succ left ih =>
      rw [List.range'_succ, List.map_cons, Slots.claimAll, seekAll]
      rcases seek_cases hbss (payload.from (8 + 6 * i)) hsound with
        ⟨hseek, hclaim⟩ | ⟨t', hseek, hsound', hclaim, hbelow⟩
      · rw [hseek, hclaim]
        exact ⟨⟨hsound, fun _ _ => rfl⟩, rfl⟩
      · rw [hseek, hclaim]
        obtain ⟨⟨hsound'', hbelow'⟩, hall⟩ := ih (i + 1) hsound'
        exact ⟨⟨hsound'', fun p hp => (hbelow' p hp).trans (hbelow p hp)⟩, hall⟩

/-- The fields of another BSS, below the entries. -/
def Foreign (bss p : Nat) : Prop :=
  p < 0x100 ∧ (p < 0xe4 + 4 * bss ∨ 0xe4 + 4 * bss + 4 ≤ p) ∧ ∀ i < 3, p ≠ 0xf4 + bss + 4 * i

theorem counted_foreign {p : Nat} (h : Foreign (payload 4).toNat p) :
    counted t payload p = t p := by
  obtain ⟨hp, hcount, hcontrols⟩ := h
  unfold counted
  have h0 := hcontrols 0 (by omega)
  have h1 := hcontrols 1 (by omega)
  have h2 := hcontrols 2 (by omega)
  rw [Table.store32_ne hcount, reset_eq, resetAll_below _ _ _ hp,
    cleared_ne hcount (by omega) (by omega) (by omega)]

theorem counted_entries (hbss : (payload 4).toNat < 4) {p : Nat} (hp : 0x100 ≤ p) :
    counted t payload p = rxfilterLegacyTableReset (payload 4).toNat t p :=
  Table.store32_ne (by omega) _ _

theorem sound_congr {t t' : Table} (h : ∀ p, 0x100 ≤ p → t' p = t p) (hsound : t.Sound) :
    t'.Sound := by
  intro k hk
  have hentry : 0x100 ≤ entryAt k := Nat.le_add_right _ _
  rw [h _ hentry, h _ (by omega)]
  exact hsound k hk

theorem slots_congr {t t' : Table} (h : ∀ p, 0x100 ≤ p → t' p = t p) : slots t' = slots t :=
  List.map_congr_left fun k _ => slotAt_congr h k

theorem slots_counted (hbss : (payload 4).toNat < 4) :
    slots (counted t payload) = Slots.release (payload 4).toNat (slots t) :=
  (slots_congr fun _ hp => counted_entries hbss hp).trans (slots_reset hbss t)

theorem counted_sound (hbss : (payload 4).toNat < 4) (h : t.Sound) : (counted t payload).Sound :=
  sound_congr (fun _ hp => counted_entries hbss hp) (reset_sound hbss h)

/-- **A SET releases what the BSS has and claims its addresses**; a count of 255 claims none. -/
theorem storeAddresses_spec (hbss : (payload 4).toNat < 4) (hsound : t.Sound) :
    Stores (counted t payload) (storeAddresses t payload).2 ∧
      (!(storeAddresses t payload).1, slots (storeAddresses t payload).2) =
        if readLe32 payload 0 = 255 then
          (false, Slots.release (payload 4).toNat (slots t))
        else Slots.claimAll (payload 4).toNat (addressesOf payload)
          (Slots.release (payload 4).toNat (slots t)) := by
  have hcounted := counted_sound hbss hsound
  unfold storeAddresses
  split
  · exact ⟨⟨hcounted, fun _ _ => rfl⟩, by rw [slots_counted hbss]; rfl⟩
  · have hall := seekAll_spec hbss payload (readLe32 payload 0).toNat 0 hcounted
    rw [slots_counted hbss] at hall
    rw [addressesOf, List.range_eq_range']
    exact hall

theorem storeAddresses_slots (hbss : (payload 4).toNat < 4) (hsound : t.Sound) :
    slots (storeAddresses t payload).2 =
      if readLe32 payload 0 = 255 then Slots.release (payload 4).toNat (slots t)
      else (Slots.claimAll (payload 4).toNat (addressesOf payload)
        (Slots.release (payload 4).toNat (slots t))).2 := by
  have hspec := (storeAddresses_spec hbss hsound).2
  split at hspec
  · rename_i hall
    rw [if_pos hall]
    exact congrArg Prod.snd hspec
  · rename_i hall
    rw [if_neg hall]
    exact congrArg Prod.snd hspec

theorem storeControls_get (bss : Nat) (payload : Buffer) (failed : Bool) (t : Table) (p : Nat) :
    storeControls bss payload failed t p =
      if p = 0xfc + bss then controlByte payload failed 2
      else if p = 0xf8 + bss then controlByte payload failed 1
      else if p = 0xf4 + bss then controlByte payload failed 0
      else t p := by
  change (((t.store (0xf4 + bss + 4 * 0) (controlByte payload failed 0)).store (0xf4 + bss + 4 * 1)
    (controlByte payload failed 1)).store (0xf4 + bss + 4 * 2) (controlByte payload failed 2)) p = _
  rw [show 0xf4 + bss + 4 * 0 = 0xf4 + bss by omega, show 0xf4 + bss + 4 * 1 = 0xf8 + bss by omega,
    show 0xf4 + bss + 4 * 2 = 0xfc + bss by omega]
  unfold Table.store
  rw [Function.update_apply, Function.update_apply, Function.update_apply]

theorem setFilter_eq (t : Table) (payload : Buffer) :
    setFilter t payload = storeControls (payload 4).toNat payload (storeAddresses t payload).1
      (storeAddresses t payload).2 := rfl

theorem setFilter_entries (hbss : (payload 4).toNat < 4) {p : Nat} (hp : 0x100 ≤ p) :
    setFilter t payload p = (storeAddresses t payload).2 p := by
  rw [setFilter_eq, storeControls_get, if_neg (by omega), if_neg (by omega), if_neg (by omega)]

theorem setFilter_sound (hbss : (payload 4).toNat < 4) (h : t.Sound) :
    (setFilter t payload).Sound :=
  sound_congr (fun _ hp => setFilter_entries hbss hp) (storeAddresses_spec hbss h).1.sound

theorem slots_setFilter (hbss : (payload 4).toNat < 4) :
    slots (setFilter t payload) = slots (storeAddresses t payload).2 :=
  slots_congr fun _ hp => setFilter_entries hbss hp

theorem setFilter_foreign (hbss : (payload 4).toNat < 4) (hsound : t.Sound) {p : Nat}
    (h : Foreign (payload 4).toNat p) : setFilter t payload p = t p := by
  obtain ⟨hp, hcount, hcontrols⟩ := h
  have h0 := hcontrols 0 (by omega)
  have h1 := hcontrols 1 (by omega)
  have h2 := hcontrols 2 (by omega)
  rw [setFilter_eq, storeControls_get, if_neg (by omega), if_neg (by omega), if_neg (by omega),
    (storeAddresses_spec hbss hsound).1.below p hp, counted_foreign ⟨hp, hcount, hcontrols⟩]

end Set

/-! ### What a BSS has -/

/-- The control bytes, the address count and the addresses of a BSS. -/
structure Settings where
  controls : List Byte
  addressCount : BitVec 32
  addresses : Set (List Byte)

def Table.settings (t : Table) (bss : Nat) : Settings where
  controls := (List.range 3).map fun i => t (0xf4 + bss + 4 * i)
  addressCount := readLe32 t (0xe4 + 4 * bss)
  addresses := Slots.keysOf bss (slots t)

/-- **A command that is no accepted SET for the BSS changes nothing of what it has.** -/
theorem settings_after {t : Table} (hsound : t.Sound) {r : Request} {bss : Nat} (hbss : bss < 4)
    (hnot : ∀ payload, ¬ r.Sets bss payload) : (t.after r).settings bss = t.settings bss := by
  by_cases hset : ∃ other payload, r.Sets other payload
  · obtain ⟨other, payload, hset⟩ := hset
    have hne : bss ≠ other := fun heq => hnot payload (heq ▸ hset)
    have hother := hset.lt
    obtain ⟨-, -, -, -, rfl⟩ := id hset
    have hsame : ∀ p, Foreign (payload 4).toNat p → setFilter t payload p = t p := fun p hp =>
      setFilter_foreign hother hsound hp
    have hslots : Slots.keysOf bss (slots (setFilter t payload)) = Slots.keysOf bss (slots t) := by
      rw [slots_setFilter hother, storeAddresses_slots hother hsound]
      split
      · exact Slots.keysOf_release_other hne _
      · exact (Slots.keysOf_claimAll_other hne _ _).trans (Slots.keysOf_release_other hne _)
    have hcontrols : (List.range 3).map (fun i => setFilter t payload (0xf4 + bss + 4 * i)) =
        (List.range 3).map fun i => t (0xf4 + bss + 4 * i) := by
      refine List.map_congr_left fun i hi => hsame _ ⟨?_, ?_, ?_⟩
      · have := List.mem_range.mp hi
        omega
      · omega
      · intro k hk
        have := List.mem_range.mp hi
        omega
    have hcount : readLe32 (setFilter t payload) (0xe4 + 4 * bss) = readLe32 t (0xe4 + 4 * bss) := by
      have hbyte : ∀ j < 4, setFilter t payload (0xe4 + 4 * bss + j) = t (0xe4 + 4 * bss + j) :=
        fun j hj => hsame _ ⟨by omega, by omega, fun k hk => by omega⟩
      unfold readLe32 readLe16
      rw [hbyte 2 (by omega), hbyte 1 (by omega),
        show setFilter t payload (0xe4 + 4 * bss) = t (0xe4 + 4 * bss) from hbyte 0 (by omega),
        show setFilter t payload (0xe4 + 4 * bss + 2 + 1) = _ from hbyte 3 (by omega)]
    rw [after_sets hset]
    unfold Table.settings
    rw [hslots, hcontrols, hcount]
  · rw [after_other fun other payload h => hset ⟨other, payload, h⟩]

theorem after_sound {t : Table} (h : t.Sound) (r : Request) : (t.after r).Sound := by
  by_cases hset : ∃ bss payload, r.Sets bss payload
  · obtain ⟨bss, payload, hset⟩ := hset
    rw [after_sets hset]
    have hbss := hset.lt
    obtain ⟨-, -, -, -, rfl⟩ := id hset
    exact setFilter_sound hbss h
  · rw [after_other fun bss payload h => hset ⟨bss, payload, h⟩]
    exact h

theorem run_sound {t : Table} (h : t.Sound) (requests : List Request) :
    (requests.foldl Table.after t).Sound := by
  induction requests generalizing t with
  | nil => exact h
  | cons r requests ih => exact ih (after_sound h r)

/-- **Commands without an accepted SET for the BSS change nothing of what it has.** -/
theorem settings_run {t : Table} (hsound : t.Sound) {bss : Nat} (hbss : bss < 4)
    {requests : List Request} (hnot : ∀ r ∈ requests, ∀ payload, ¬ r.Sets bss payload) :
    (requests.foldl Table.after t).settings bss = t.settings bss := by
  induction requests generalizing t with
  | nil => rfl
  | cons r requests ih =>
      rw [List.foldl_cons, ih (after_sound hsound r) fun q hq => hnot q (List.mem_cons_of_mem r hq)]
      exact settings_after hsound hbss (hnot r List.mem_cons_self)

/-! ### Statuses -/

/-- The status of a BSS with a policy. -/
def statusOf (bss policy : Byte) : Byte := 0xa0 ||| (bss <<< 3) ||| policy

/-- A status holds the BSS and the policy, and is not the one for an error. -/
theorem statusOf_small {bss policy : Byte} (hbss : bss < 4) (hpolicy : policy ≤ 7) :
    statusOf bss policy ≠ statusInvalid ∧ statusOf bss policy &&& 7 = policy ∧
      (statusOf bss policy >>> 3) &&& 3 = bss := by
  have hbss' : ∃ i : Fin 4, bss = BitVec.ofNat 8 i.val :=
    ⟨⟨bss.toNat, hbss⟩, by rw [BitVec.ofNat_toNat, BitVec.setWidth_eq]⟩
  have hpolicy' : ∃ i : Fin 8, policy = BitVec.ofNat 8 i.val :=
    ⟨⟨policy.toNat, Nat.lt_succ_of_le hpolicy⟩, by rw [BitVec.ofNat_toNat, BitVec.setWidth_eq]⟩
  obtain ⟨i, rfl⟩ := hbss'
  obtain ⟨k, rfl⟩ := hpolicy'
  clear hbss hpolicy
  revert i k
  decide

theorem statusOf_inj {bss bss' policy policy' : Byte} (hbss : bss < 4) (hbss' : bss' < 4)
    (hpolicy : policy ≤ 7) (hpolicy' : policy' ≤ 7)
    (h : statusOf bss policy = statusOf bss' policy') : bss = bss' ∧ policy = policy' := by
  obtain ⟨-, hlow, hhigh⟩ := statusOf_small hbss hpolicy
  obtain ⟨-, hlow', hhigh'⟩ := statusOf_small hbss' hpolicy'
  exact ⟨by rw [← hhigh, h, hhigh'], by rw [← hlow, h, hlow']⟩

theorem statusPolicy_statusOf {bss policy : Byte} (hbss : bss < 4) (hpolicy : policy ≤ 7) :
    statusPolicy (statusOf bss policy) = policy := by
  obtain ⟨hne, hlow, -⟩ := statusOf_small hbss hpolicy
  unfold statusPolicy
  rw [if_neg hne, hlow]

/-! ### The extended modes -/

section Extended

variable {bss : Nat} {payload : Buffer} {t : Table}

/-- A SET that carries the mode in both control bytes. -/
def Carries (payload : Buffer) (mode : Byte) : Prop :=
  8 ≤ mode ∧ mode ≤ 11 ∧ modeOf (payload 5) = mode ∧ modeOf (payload 6) = mode

/-- The control byte of a mode. -/
def modeControl (mode : Byte) : Byte := (mode <<< 4) ||| 3

theorem extended_cases {mode : Byte} (h : 8 ≤ mode) (h' : mode ≤ 11) :
    mode = 8 ∨ mode = 9 ∨ mode = 10 ∨ mode = 11 := by
  revert mode
  decide +kernel

/-- **The control bytes of a mode stand for its policy.** -/
theorem controlStatus_mode {mode : Byte} (h : 8 ≤ mode) (h' : mode ≤ 11) (bss : Byte) :
    rxfilterQueryControlStatus (modeControl mode) (modeControl mode) bss =
      statusOf bss (mode - 4) := by
  unfold rxfilterQueryControlStatus statusOf
  rcases extended_cases h h' with rfl | rfl | rfl | rfl
  · rw [if_pos ⟨rfl, by decide⟩]
    rfl
  · rw [if_pos ⟨rfl, by decide⟩]
    rfl
  · rw [if_pos ⟨rfl, by decide⟩]
    rfl
  · rw [if_pos ⟨rfl, by decide⟩]
    rfl

theorem setFilter_carries {mode : Byte} (h : Carries payload mode) (t : Table) : setFilter t payload (0xf4 + (payload 4).toNat) = modeControl mode ∧
      setFilter t payload (0xf8 + (payload 4).toNat) = modeControl mode := by
  obtain ⟨hlow, hhigh, hfive, hsix⟩ := h
  have hfamily : isFamily payload = true := by
    unfold isFamily
    rw [hfive, hsix]
    exact decide_eq_true ⟨hlow, hhigh, rfl⟩
  have hbyte : ∀ failed, ∀ i < 2, controlByte payload failed i = modeControl mode := by
    intro failed i hi
    unfold controlByte
    rw [if_pos ⟨hfamily, hi⟩, hfive]
    rfl
  rw [setFilter_eq, storeControls_get, storeControls_get]
  constructor
  · rw [if_neg (by omega), if_neg (by omega), if_pos rfl]
    exact hbyte _ 0 (by omega)
  · rw [if_neg (by omega), if_pos rfl]
    exact hbyte _ 1 (by omega)

/-- A BSS with the control bytes of a mode. -/
def Table.HasMode (t : Table) (bss : Nat) (mode : Byte) : Prop :=
  t (0xf4 + bss) = modeControl mode ∧ t (0xf8 + bss) = modeControl mode

theorem hasMode_congr {t t' : Table} {mode : Byte} (h : t'.settings bss = t.settings bss)
    (hmode : t.HasMode bss mode) : t'.HasMode bss mode := by
  have hcontrols : ∀ i ∈ List.range 3, t' (0xf4 + bss + 4 * i) = t (0xf4 + bss + 4 * i) :=
    List.map_inj_left.mp (congrArg Settings.controls h)
  have h0 := hcontrols 0 (by decide)
  have h1 := hcontrols 1 (by decide)
  rw [Nat.mul_zero, Nat.add_zero] at h0
  rw [show 0xf4 + bss + 4 * 1 = 0xf8 + bss by omega] at h1
  exact ⟨h0.trans hmode.1, h1.trans hmode.2⟩

theorem policy_le {mode : Byte} (h : 8 ≤ mode) (h' : mode ≤ 11) : mode - 4 ≤ 7 := by
  rcases extended_cases h h' with rfl | rfl | rfl | rfl
  all_goals decide

theorem enabled_mode {mode : Byte} (h : 8 ≤ mode) (h' : mode ≤ 11) : enabled (mode - 4) = true := by
  rcases extended_cases h h' with rfl | rfl | rfl | rfl
  all_goals decide

/-- **A query gets the policy.** -/
theorem queryStatus_mode {mode : Byte} (h : 8 ≤ mode) (h' : mode ≤ 11)
    (hmode : t.HasMode bss mode) {header : Buffer} (hquery : isValidQuery header bss = true) :
    queryStatus (some t) header (header.from 32) = statusOf (header.from 32 4) (mode - 4) := by
  unfold isValidQuery at hquery
  rw [decide_eq_true_iff] at hquery
  obtain ⟨htotal, hzero, hlt, hversion, rfl⟩ := hquery
  unfold queryStatus
  dsimp only
  rw [if_pos ⟨htotal, hzero, hlt, hversion⟩, hmode.1, hmode.2, controlStatus_mode h h']

/-- The memory has the table behind its pointer. -/
def Holds (m : Memory) (t : Table) : Prop :=
  m.load32 0xf03adc2c ≠ 0 ∧ ∀ i < 0x200, m (m.load32 0xf03adc2c + BitVec.ofNat 32 i) = t i

theorem Holds.controls {m : Memory} (h : Holds m t) :
    Wifi.controls m = some (m.load32 0xf03adc2c + 0xf4) := by
  unfold Wifi.controls
  rw [if_neg h.1]

theorem Holds.controlStatus {m : Memory} (h : Holds m t) {index : Byte} (hindex : index < 4) :
    controlStatus m (m.load32 0xf03adc2c + 0xf4) index =
      rxfilterQueryControlStatus (t (0xf4 + index.toNat)) (t (0xf8 + index.toNat)) index := by
  have hlt : index.toNat < 4 := hindex
  have hword : index.setWidth 32 = BitVec.ofNat 32 index.toNat := by
    rw [BitVec.ofNat_toNat]
  unfold Wifi.controlStatus
  rw [← h.2 (0xf4 + index.toNat) (by omega), ← h.2 (0xf8 + index.toNat) (by omega), hword,
    BitVec.ofNat_add, BitVec.ofNat_add]
  congr 1
  · congr 1
    bv_omega
  · congr 1
    bv_omega

/-- **A packet is judged by the policy.** -/
theorem framePolicy_mode {m : Memory} (hholds : Holds m t) {mode : Byte} (h : 8 ≤ mode)
    (h' : mode ≤ 11) (hbss : bss < 4) (hmode : t.HasMode bss mode) {descriptor : Address}
    (hindex : (m (descriptor + 0x69)).toNat = bss) : framePolicy m descriptor = mode - 4 := by
  subst hindex
  rw [framePolicy_eq hholds.controls, hholds.controlStatus hbss, hmode.1, hmode.2,
    controlStatus_mode h h']
  exact statusPolicy_statusOf hbss (policy_le h h')

end Extended

/-! ### The reply and its check -/

section Match

/-- The word of three bytes, byte for byte. -/
theorem wordBytes_placed (a b c : Byte) :
    wordBytes (placed a 0 ||| placed b 8 ||| placed c 16) = [a, b, c, 0] := by
  unfold wordBytes placed
  simp only [List.cons.injEq, and_true]
  refine ⟨?_, ?_, ?_, ?_⟩
  all_goals
    ext i hi
    interval_cases i <;> simp

theorem placed_wordBytes (word : BitVec 32) :
    placed (word.setWidth 8) 0 ||| placed ((word >>> 8).setWidth 8) 8 |||
      placed ((word >>> 16).setWidth 8) 16 ||| placed ((word >>> 24).setWidth 8) 24 = word := by
  unfold placed
  ext i hi
  interval_cases i <;> simp

/-- The event of a reply to a query. -/
def eventBytes (header : Buffer) (status : Byte) (nonce : BitVec 32) (control : Nat → Byte) :
    List Byte :=
  wordBytes 0xe0000014 ++ [0xfd, header 7, 0, 0] ++ [status, header 4, 1, 0] ++ wordBytes nonce ++
    [control 0, control 1, control 2, 0]

/-- The control bytes that a reply carries. -/
def carried (t : Table) (bss : Nat) (status : Byte) (i : Nat) : Byte :=
  if status = statusInvalid then 0 else t (0xf4 + bss + 4 * i)

/-- The event of a reply. -/
theorem reply_event (t : Table) (header : Buffer) (status : Byte) (nonce : BitVec 32) :
    reply true (some t) header status nonce true =
      (0, some (eventBytes header status nonce (carried t (header 36).toNat status))) := by
  have htype : wordBytes (0xfd ||| placed (header 7) 8) = [0xfd, header 7, 0, 0] := by
    rw [← wordBytes_placed]
    simp [placed]
  have hstatus : wordBytes (placed status 0 ||| placed (header 4) 8 ||| (1 : BitVec 32) <<< 16) =
      [status, header 4, 1, 0] := by
    rw [← wordBytes_placed]
    rfl
  have hbaseline : wordBytes (if status = statusInvalid then 0 else
      (some t).elim 0 fun t => baseline t (header 36).toNat) =
      [carried t (header 36).toNat status 0, carried t (header 36).toNat status 1,
        carried t (header 36).toNat status 2, 0] := by
    unfold carried
    split
    · rfl
    · change wordBytes (baseline t (header 36).toNat) = _
      unfold baseline
      rw [wordBytes_placed, show 0xf4 + (header 36).toNat + 4 * 1 = 0xf8 + (header 36).toNat by omega,
        show 0xf4 + (header 36).toNat + 4 * 2 = 0xfc + (header 36).toNat by omega]
      rfl
  unfold reply
  dsimp only
  rw [if_neg (by decide), if_pos rfl, if_pos rfl, if_pos rfl, htype, hstatus, hbaseline]
  rfl

/-- The response to a query matches when each of its fields does. -/
theorem matches_event (header : Buffer) (status : Byte) (nonce : BitVec 32) (control : Nat → Byte)
    (hid : header 4 = 0xc1) (sequence bss policy : Byte) (expected : BitVec 32) :
    eventMatches (eventBytes header status nonce control) sequence bss policy expected = true ↔
      header 7 = sequence ∧ bss < 4 ∧ (policy = 0 ∨ (policy ≥ 4 ∧ policy ≤ 7)) ∧ nonce = expected ∧
        status = statusOf bss policy ∧
        rxfilterQueryControlStatus (control 0) (control 1) bss = status := by
  change rxfilterQueryResponseMatches 0xfd (header 7)
    (some fun i => (eventBytes header status nonce control).getD (8 + i) 0) 12 sequence bss policy
    expected = true ↔ _
  -- The nonce, put together from its bytes.
  have hnonce : placed (nonce.setWidth 8) 0 ||| placed ((nonce >>> 8).setWidth 8) 8 |||
      placed ((nonce >>> 16).setWidth 8) 16 ||| placed ((nonce >>> 24).setWidth 8) 24 = nonce :=
    placed_wordBytes nonce
  unfold rxfilterQueryResponseMatches
  dsimp only
  rw [ite_eq_iff]
  change _ ∨ ¬ ((0xfd : Byte) ≠ 0xfd ∨ header 7 ≠ sequence ∨ 12 ≠ 12 ∨ bss ≥ 4 ∨
    ¬ (policy = 0 ∨ (policy ≥ 4 ∧ policy ≤ 7)) ∨ header 4 ≠ 0xc1 ∨ (1 : Byte) ≠ 1 ∨ (0 : Byte) ≠ 0 ∨
      (0 : Byte) ≠ 0) ∧ decide (placed (nonce.setWidth 8) 0 ||| placed ((nonce >>> 8).setWidth 8) 8 |||
      placed ((nonce >>> 16).setWidth 8) 16 ||| placed ((nonce >>> 24).setWidth 8) 24 = expected ∧
        status = statusOf bss policy ∧
        rxfilterQueryControlStatus (control 0) (control 1) bss = status) = true ↔ _
  rw [hnonce, decide_eq_true_iff, hid]
  constructor
  · rintro (⟨-, h⟩ | ⟨hcond, hexpected, hstatus, hcontrol⟩)
    · cases h
    -- The nine tests before the answer; those of the fixed bytes always pass.
    · obtain ⟨-, hcond⟩ := not_or.mp hcond
      obtain ⟨hsequence, hcond⟩ := not_or.mp hcond
      obtain ⟨-, hcond⟩ := not_or.mp hcond
      obtain ⟨hbss, hcond⟩ := not_or.mp hcond
      exact ⟨not_not.mp hsequence, BitVec.not_le.mp hbss, not_not.mp (not_or.mp hcond).1, hexpected,
        hstatus, hcontrol⟩
  · rintro ⟨rfl, hbss, hpolicy, hexpected, hstatus, hcontrol⟩
    refine .inr ⟨?_, hexpected, hstatus, hcontrol⟩
    rintro (h | h | h | h | h | h | h | h | h)
    · exact h rfl
    · exact h rfl
    · exact h rfl
    · exact absurd hbss (BitVec.not_lt.mpr h)
    · exact h hpolicy
    · exact h rfl
    · exact h rfl
    · exact h rfl
    · exact h rfl

/-- The policies that a status can have. -/
theorem controlStatus_form (awake asleep bss : Byte)
    (h : rxfilterQueryControlStatus awake asleep bss ≠ statusInvalid) :
    ∃ policy, (policy = 0 ∨ (policy ≥ 4 ∧ policy ≤ 7)) ∧
      rxfilterQueryControlStatus awake asleep bss = statusOf bss policy := by
  have hmode : ∀ a : Byte, a &&& 0xcf = 0x83 → (a >>> 4) - 4 ≥ 4 ∧ (a >>> 4) - 4 ≤ 7 := by
    decide +kernel
  unfold rxfilterQueryControlStatus at h ⊢
  split at h
  · rename_i hsame
    rw [if_pos hsame]
    exact ⟨_, .inr (hmode awake hsame.2), rfl⟩
  · rename_i hother
    rw [if_neg hother]
    split at h
    · exact absurd rfl h
    · rename_i hvalid
      rw [if_neg hvalid]
      exact ⟨0, .inl rfl, (BitVec.or_zero).symm⟩

/-- **The reply is accepted for what was asked and what the state says**, and for nothing else. -/
theorem reply_matches {t : Table} {header : Buffer} (hid : header 4 = 0xc1)
    (sequence bss policy : Byte) (expected nonce : BitVec 32) :
    let status := queryStatus (some t) header (header.from 32)
    eventMatches (eventBytes header status nonce (carried t (header 36).toNat status)) sequence bss
        policy expected = true ↔
      status ≠ statusInvalid ∧ sequence = header 7 ∧ bss = header 36 ∧
        policy = statusPolicy status ∧ expected = nonce := by
  intro status
  rw [matches_event _ _ _ _ hid]
  -- An invalid status stands for no policy that can be expected.
  by_cases hinvalid : status = statusInvalid
  · constructor
    · rintro ⟨-, hbss, hpolicy, -, hstatus, -⟩
      have hle : policy ≤ 7 := by
        rcases hpolicy with rfl | ⟨-, hle⟩
        · decide
        · exact hle
      exact absurd (hstatus.symm.trans hinvalid) (statusOf_small hbss hle).1
    · exact fun h => absurd hinvalid h.1
  -- Otherwise the query was well formed, and the status is read from the table.
  · have hvalid : totalOf header = 44 ∧ readLe32 (header.from 32) 0 = 0 ∧ header.from 32 4 < 4 ∧
        header.from 32 7 = 1 := by
      by_contra hnot
      exact hinvalid (if_neg hnot)
    have hcontrol : rxfilterQueryControlStatus (carried t (header 36).toNat status 0)
        (carried t (header 36).toNat status 1) (header 36) = status := by
      unfold carried
      rw [if_neg hinvalid, if_neg hinvalid,
        show 0xf4 + (header 36).toNat + 4 * 1 = 0xf8 + (header 36).toNat by omega]
      exact (if_pos hvalid).symm
    -- It is the status of one policy only.
    obtain ⟨own, hown, hform⟩ := controlStatus_form _ _ _ (hcontrol.trans_ne hinvalid)
    rw [hcontrol] at hform
    have hle : ∀ p : Byte, p = 0 ∨ (p ≥ 4 ∧ p ≤ 7) → p ≤ 7 := by
      rintro p (rfl | ⟨-, hp⟩)
      · decide
      · exact hp
    have hpolicy : statusPolicy status = own := by
      rw [hform]
      exact statusPolicy_statusOf hvalid.2.2.1 (hle own hown)
    rw [hpolicy]
    constructor
    · rintro ⟨rfl, hbss, hexpected, rfl, hstatus, -⟩
      obtain ⟨rfl, rfl⟩ := statusOf_inj hbss hvalid.2.2.1 (hle policy hexpected) (hle own hown)
        (hstatus.symm.trans hform)
      exact ⟨hinvalid, rfl, rfl, rfl, rfl⟩
    · rintro ⟨-, rfl, rfl, rfl, rfl⟩
      exact ⟨rfl, hvalid.2.2.1, hown, rfl, hform, hcontrol⟩

end Match

/-! ### The commands together -/

/-- A rejected command says nothing and leaves the table alone. -/
theorem command_rejected {t : Table} {r : Request} {o : Outcome}
    (h : rxfilterFirmwareCommand r.allocated (some t) r.raw = some o) (hcode : o.code = rejectCode) :
    o.sent = none ∧ o.table = some t := by
  by_cases hset : ∃ raw, r.raw = some raw ∧ isAccepted (raw.from 0x20) = true
  · obtain ⟨raw, hraw, haccepted⟩ := hset
    rw [hraw, command_set rfl haccepted] at h
    cases h
    exact absurd hcode (show ¬ (0 : BitVec 32) = rejectCode by decide)
  · obtain ⟨code, sent, hcommand, hsent⟩ := command_other (r := r) (fun raw hraw =>
      Bool.eq_false_iff.mpr fun haccepted => hset ⟨raw, hraw, haccepted⟩) t
    rw [hcommand] at h
    cases h
    exact ⟨hsent hcode, rfl⟩

/-- When all addresses of a SET were stored, they are what the BSS has. -/
theorem addresses_setFilter {t : Table} {payload : Buffer} (hbss : (payload 4).toNat < 4)
    (hsound : t.Sound) (hstored : (storeAddresses t payload).1 = false) :
    ((setFilter t payload).settings (payload 4).toNat).addresses =
      { address | address ∈ addressesOf payload } := by
  have hspec := (storeAddresses_spec hbss hsound).2
  rw [hstored] at hspec
  change Slots.keysOf _ (slots (setFilter t payload)) = _
  rw [slots_setFilter hbss]
  split at hspec
  · cases congrArg Prod.fst hspec
  · have hall : (Slots.claimAll (payload 4).toNat (addressesOf payload)
        (Slots.release (payload 4).toNat (slots t))).1 = true := (congrArg Prod.fst hspec).symm
    rw [show slots (storeAddresses t payload).2 = _ from congrArg Prod.snd hspec,
      Slots.keysOf_claimAll_self hall, Slots.keysOf_release_self, Set.union_empty]

/-- A query of any version that has a buffer is answered. -/
theorem Request.Asks.answered {q : Request} {header : Buffer} (h : q.Asks header)
    (hallocated : q.allocated = true) (t : Table) :
    let status := queryStatus (some t) header (header.from 32)
    rxfilterFirmwareCommand q.allocated (some t) q.raw = some ⟨0,
      some (eventBytes header status
        (if totalOf header ≥ 44 then readLe32 (header.from 32) 8 else 0)
        (carried t (header 36).toNat status)), some t⟩ := by
  obtain ⟨raw, hraw, hheader, htotal, hset, hr, hx⟩ := h
  intro status
  rw [hraw, command_query hheader htotal hset hr hx, hallocated]
  dsimp only
  rw [reply_event]

/-- **Commands, queries and packets agree**, for every sequence of commands: after the last accepted
SET for a BSS its addresses are those of the SET if all of them were stored, and with an extended
mode its queries are answered with the policy of the mode and its packets judged by it. Other
commands change nothing of what the BSS has, a rejected one nothing at all, and the reply to a query
is accepted exactly for what was asked. -/
theorem commands_agree {t₀ : Table} (hsound : t₀.Sound) (before : List Request) :
    let t := before.foldl Table.after t₀
    (∀ (r : Request) o, rxfilterFirmwareCommand r.allocated (some t) r.raw = some o →
      o.code = rejectCode → o.sent = none ∧ o.table = some t) ∧
    (∀ (r : Request) bss, bss < 4 → (∀ payload, ¬ r.Sets bss payload) →
      (t.after r).settings bss = t.settings bss) ∧
    (∀ (r : Request) bss payload (later : List Request), r.Sets bss payload →
      (∀ q ∈ later, ∀ payload, ¬ q.Sets bss payload) →
      let t' := later.foldl Table.after (t.after r)
      ((storeAddresses t payload).1 = false →
        (t'.settings bss).addresses = { address | address ∈ addressesOf payload }) ∧
      ∀ mode, Carries payload mode →
        (∀ (q : Request) header, q.Asks header → isValidQuery header bss = true →
          q.allocated = true → ∃ event,
            rxfilterFirmwareCommand q.allocated (some t') q.raw = some ⟨0, some event, some t'⟩ ∧
              statusPolicy (event.getD 8 0) = mode - 4) ∧
        ∀ m descriptor, Holds m t' → (m (descriptor + 0x69)).toNat = bss →
          framePolicy m descriptor = mode - 4 ∧
          rxfilterFirmwarePacket m descriptor =
            if isSelected m descriptor ∧ isInBuffer m descriptor then
              frameVerdict m descriptor (mode - 4)
            else .inherit) ∧
    ∀ (q : Request) header, q.Asks header → q.allocated = true → header 4 = 0xc1 → ∃ event,
      rxfilterFirmwareCommand q.allocated (some t) q.raw = some ⟨0, some event, some t⟩ ∧
      ∀ sequence bss policy nonce, eventMatches event sequence bss policy nonce = true ↔
        queryStatus (some t) header (header.from 32) ≠ statusInvalid ∧ sequence = header 7 ∧
          bss = header 36 ∧ policy = statusPolicy (queryStatus (some t) header (header.from 32)) ∧
          nonce = if totalOf header ≥ 44 then readLe32 (header.from 32) 8 else 0 := by
  intro t
  have ht : t.Sound := run_sound hsound before
  refine ⟨fun r o => command_rejected, fun r bss hbss hnot => settings_after ht hbss hnot, ?_, ?_⟩
  · intro r bss payload later hset hlater t'
    have hbss := hset.lt
    -- commands for other stations and rejected ones leave the settings
    have hsettings : t'.settings bss = (setFilter t payload).settings bss := by
      rw [← after_sets hset]
      exact settings_run (after_sound ht r) hbss hlater
    obtain ⟨-, -, -, -, rfl⟩ := id hset
    refine ⟨fun hstored => ?_, fun mode hmode => ?_⟩
    · rw [hsettings]
      exact addresses_setFilter hbss ht hstored
    -- a query is answered from the settings
    · have hhas := hasMode_congr hsettings (setFilter_carries hmode t)
      obtain ⟨hlow, hhigh, -, -⟩ := hmode
      refine ⟨fun q header hasks hvalid hallocated => ?_, fun m descriptor hholds hindex => ?_⟩
      · refine ⟨_, hasks.answered hallocated t', ?_⟩
        rw [queryStatus_mode hlow hhigh hhas hvalid]
        have hindex : header.from 32 4 < 4 := by
          unfold isValidQuery at hvalid
          exact (decide_eq_true_iff.mp hvalid).2.2.1
        exact statusPolicy_statusOf hindex (policy_le hlow hhigh)
      -- a packet is judged by them
      · have hpolicy := framePolicy_mode hholds hlow hhigh hbss hhas hindex
        refine ⟨hpolicy, ?_⟩
        have henabled : hasPolicy m descriptor = true := by
          unfold hasPolicy
          rw [hpolicy]
          have hlt : (m (descriptor + 0x69)).toNat < 4 := hindex.trans_lt hbss
          exact decide_eq_true ⟨hlt, enabled_mode hlow hhigh⟩
        rw [firmwarePacket_eq, hpolicy, henabled]
        simp
  · intro q header hasks hallocated hid
    exact ⟨_, hasks.answered hallocated t, fun sequence bss policy nonce =>
      reply_matches hid sequence bss policy nonce _⟩

/-- A command with these bytes. -/
def sampleRaw (fields : List (Nat × Byte)) : Buffer := fun i => (fields.lookup i).getD 0

/-- A SET of mode 9 and one address for BSS 1. -/
def sampleSet : Request :=
  ⟨some (sampleRaw [(0x20, 46), (0x26, 1), (0x40, 1), (0x44, 1), (0x45, 0x90), (0x46, 0x90),
    (0x48, 2)]), false⟩

/-- The query for it. -/
def sampleQuery : Request :=
  ⟨some (sampleRaw [(0x20, 44), (0x24, 0xc1), (0x27, 7), (0x44, 1), (0x45, 0x52), (0x46, 0x58),
    (0x47, 1), (0x48, 0x55)]), true⟩

theorem commands_agree_sample :
    ∃ event, rxfilterFirmwareCommand sampleQuery.allocated (some (Table.after 0 sampleSet))
      sampleQuery.raw = some ⟨0, some event, some (Table.after 0 sampleSet)⟩ ∧
        statusPolicy (event.getD 8 0) = 9 - 4 := by
  have hsets : sampleSet.Sets 1 (((sampleSet.raw.getD 0).from 0x20).from 32) :=
    ⟨_, rfl, by decide, rfl, by decide⟩
  have hasks : sampleQuery.Asks ((sampleQuery.raw.getD 0).from 0x20) :=
    ⟨_, rfl, rfl, by decide, by decide, by decide, by decide⟩
  have hsound : Table.Sound 0 := fun _ _ _ => rfl
  obtain ⟨-, -, hset, -⟩ := commands_agree hsound []
  obtain ⟨-, hmode⟩ := hset sampleSet 1 _ [] hsets nofun
  have hasked := (hmode 9 ⟨by decide, by decide, by decide, by decide⟩).1 sampleQuery _ hasks
    (by decide) rfl
  simp only [List.foldl_nil] at hasked
  exact hasked

end Mindone.Wifi
