import Mindone.Tether.FlowParser
import Mathlib.Tactic.ByContra

/-!
# Mindone.Tether.FlowMessages

What a message of the connection tracker is, apart from how it is read: attribute lists are **exact
concatenations** of padded attributes with distinct types (`IsAttributes`), and a message holds the
endpoints, and what else a flow needs, in such lists (`IsMessage`). `parseFlow` accepts these
messages, and nothing else, as what they say (`parseFlow_eq_ok_iff`), and never reads behind its
buffer.
-/

namespace Mindone.Tether

open Lib Lib.Checked

/-! ### Attribute lists -/

/-- The bytes behind a payload. -/
def paddingOf (payload : Bytes) : Nat := nlaAlign (payload.length + 4) - (payload.length + 4)

/-- **Attributes, one behind the other.** -/
inductive AttrList : List (Nat × Bytes) → Bytes → Prop
  | nil : AttrList [] []
  | cons {type : Nat} {payload pad tail : Bytes} {attrs : List (Nat × Bytes)}
      (htype : type < 0x10000) (hlength : payload.length + 4 < 0x10000)
      (hpad : pad.length = paddingOf payload) (hrest : AttrList attrs tail) :
      AttrList ((nlaType type, payload) :: attrs)
        (toLe 2 (payload.length + 4) ++ toLe 2 type ++ payload ++ pad ++ tail)

/-- An attribute list without two attributes of a type. -/
structure IsAttributes (bytes : Bytes) (attrs : List (Nat × Bytes)) : Prop where
  list : AttrList attrs bytes
  distinct : (attrs.map Prod.fst).Nodup

/-- The attribute of a type, which is of some size. -/
def Holds (attrs : List (Nat × Bytes)) (type size : Nat) (bytes : Bytes) : Prop :=
  attrs.lookup type = some bytes ∧ bytes.length = size

/-- The payload of an attribute is a list itself. -/
def Nests (attrs : List (Nat × Bytes)) (type : Nat) (child : List (Nat × Bytes)) : Prop :=
  ∃ payload, attrs.lookup type = some payload ∧ IsAttributes payload child

/-- The ends of a connection, from the attributes of the addresses and those of the protocol. -/
def HasEnds (ip proto : List (Nat × Bytes)) (v4 : Bool) (ends : Endpoints) : Prop :=
  ∃ src, Holds ip (if v4 then ctaIpV4Src else ctaIpV6Src) (addressSize v4) src ∧
  ∃ dst, Holds ip (if v4 then ctaIpV4Dst else ctaIpV6Dst) (addressSize v4) dst ∧
  ∃ protocol, Holds proto ctaProtoNum 1 protocol ∧
  ∃ sport, Holds proto ctaProtoSrcPort 2 sport ∧
  ∃ dport, Holds proto ctaProtoDstPort 2 dport ∧
    ends = ⟨toAddress src, toAddress dst, port sport, port dport, protocol.headD 0⟩

/-- An attribute with the two ends of a connection. -/
def HasTuple (attrs : List (Nat × Bytes)) (type : Nat) (v4 : Bool) (ends : Endpoints) : Prop :=
  ∃ tuple, Nests attrs type tuple ∧ ∃ ip, Nests tuple ctaTupleIp ip ∧
    ∃ proto, Nests tuple ctaTupleProto proto ∧ HasEnds ip proto v4 ends

/-! ### Messages -/

/-- The id is that of the message, or zero. -/
def HasId (attrs : List (Nat × Bytes)) (id : UInt32) : Prop :=
  (attrs.lookup ctaId = none ∧ id = 0) ∨ ∃ bytes, Holds attrs ctaId 4 bytes ∧ id = load32 bytes

/-- The zone is zero, when the message has one. -/
def ZeroZone (attrs : List (Nat × Bytes)) : Prop :=
  attrs.lookup ctaZone = none ∨ attrs.lookup ctaZone = some [0, 0]

/-- The flow before the reply is known. -/
def Endpoints.flow (orig : Endpoints) (family : Nat) (destroy : Bool) (id : UInt32) : Flow where
  family
  destroy
  id
  proto := orig.proto
  src := orig.src
  dst := orig.dst
  sport := orig.sport
  dport := orig.dport
  pub := noAddress
  replySrc := noAddress
  publicPort := 0
  replyPort := 0
  timeout := 0
  status := 0

/-- The flow with the reply, a timeout and a status in network order. -/
def Flow.answered (f : Flow) (reply : Endpoints) (timeout status : Bytes) : Flow :=
  { f with
    replySrc := reply.src, pub := reply.dst, replyPort := reply.sport, publicPort := reply.dport
    timeout := networkWord timeout, status := networkWord status }

/-- **What the attributes of a message say of its flow.** -/
def Describes (attrs : List (Nat × Bytes)) (family : Nat) (destroy : Bool) (f : Flow) : Prop :=
  ∃ orig id, HasTuple attrs ctaTupleOrig (family == afInet) orig ∧
    (orig.proto = ipprotoTcp ∨ orig.proto = ipprotoUdp) ∧ HasId attrs id ∧ ZeroZone attrs ∧
    if destroy then f = orig.flow family destroy id
    else ∃ reply timeout status,
      HasTuple attrs ctaTupleReply (family == afInet) reply ∧ reply.proto = orig.proto ∧
      Holds attrs ctaTimeout 4 timeout ∧ Holds attrs ctaStatus 4 status ∧
      f = (orig.flow family destroy id).answered reply timeout status

/-- The two headers of a message; `rest` are its flags, sequence number and port, `res` its
resource. -/
def headerBytes (length command family : Nat) (rest res : Bytes) : Bytes :=
  toLe 4 length ++ toLe 2 (0x100 * nfnlSubsysCtnetlink + command) ++ rest ++
    [UInt8.ofNat family, UInt8.ofNat nfnetlinkV0] ++ res

/-- **A complete message**, and the flow it says. -/
def IsMessage (buffer : Bytes) (f : Flow) : Prop :=
  ∃ command family rest res body attrs,
    (command = ipctnlMsgCtNew ∨ command = ipctnlMsgCtDelete) ∧
    (family = afInet ∨ family = afInet6) ∧ rest.length = 10 ∧ res.length = 2 ∧
    buffer.length < 2 ^ 32 ∧ buffer = headerBytes buffer.length command family rest res ++ body ∧
    IsAttributes body attrs ∧ Describes attrs family (command == ipctnlMsgCtDelete) f

/-! ### Reading a list -/

section Attributes

variable {buffer bytes : Bytes} {attrs : List (Nat × Bytes)} {data size : Nat}

/-- The places of the payloads of a list that starts at an offset. -/
def placed : Nat → List (Nat × Bytes) → Attributes
  | _, [] => []
  | data, (type, payload) :: rest =>
      (type, ⟨data + 4, payload.length⟩) :: placed (data + nlaAlign (payload.length + 4)) rest

/-- The payload in a place. -/
def payloadAt (buffer : Bytes) (value : Value) : Bytes := sliceAt buffer value.data value.size

theorem le_nlaAlign (length : Nat) : length ≤ nlaAlign length := by
  unfold nlaAlign
  omega

theorem AttrList.eq_nil (h : AttrList attrs []) : attrs = [] := by
  generalize hbytes : ([] : Bytes) = bytes at h
  cases h with
  | nil => rfl
  | cons htype hlength hpad hrest => simp [toLe] at hbytes

/-- A slice and what follows it. -/
theorem append_drop {offset stop : Nat} (h : offset + size = stop) :
    sliceAt bytes offset size ++ bytes.drop stop = bytes.drop offset := by
  rw [← h, sliceAt, ← List.drop_drop, List.take_append_drop]

/-- **The first attribute and the rest.** -/
theorem attrList_iff (hne : bytes ≠ []) :
    AttrList attrs bytes ↔
      4 ≤ bytes.length ∧ 4 ≤ leAt 2 bytes 0 ∧ nlaAlign (leAt 2 bytes 0) ≤ bytes.length ∧
        ∃ rest, AttrList rest (bytes.drop (nlaAlign (leAt 2 bytes 0))) ∧
          attrs = (nlaType (leAt 2 bytes 2), sliceAt bytes 4 (leAt 2 bytes 0 - 4)) :: rest := by
  -- From the grammar to the bytes, an attribute is read off; the other way it is put together.
  constructor
  · intro h
    cases h with
    | nil => exact absurd rfl hne
    | @cons type payload pad tail rest htype hlength hpad hrest =>
        have hle := le_nlaAlign (payload.length + 4)
        unfold paddingOf at hpad
        -- The two words of the header, read where they were written.
        have hfirst : leAt 2 (toLe 2 (payload.length + 4) ++ toLe 2 type ++ payload ++ pad ++ tail) 0 =
            payload.length + 4 := by
          simp only [List.append_assoc]
          exact leAt_toLe_append (by omega) _
        have hsecond : leAt 2 (toLe 2 (payload.length + 4) ++ toLe 2 type ++ payload ++ pad ++ tail) 2 =
            type := by
          simp only [List.append_assoc]
          have := @leAt_append 2 _ 2 (length_toLe 2 (payload.length + 4))
            (toLe 2 type ++ (payload ++ (pad ++ tail))) 0
          rw [Nat.add_zero] at this
          rw [this]
          exact leAt_toLe_append (by omega) _
        rw [hfirst, hsecond]
        refine ⟨by simp; omega, by omega, by simp; omega, rest, ?_, ?_⟩
        · rw [List.drop_left' (by simp; omega)]
          exact hrest
        · rw [Nat.add_sub_cancel]
          -- The payload follows the header and has the length announced less the header.
          have hpayload : sliceAt (toLe 2 (payload.length + 4) ++ toLe 2 type ++ payload ++ pad ++ tail)
              4 payload.length = payload := by
            simp only [List.append_assoc]
            rw [sliceAt, ← List.append_assoc, List.drop_left' (by simp), List.take_left' rfl]
          rw [hpayload]
  · rintro ⟨hfour, hlength, hend, rest, hrest, rfl⟩
    have hle := le_nlaAlign (leAt 2 bytes 0)
    have hword : leAt 2 bytes 0 < 0x10000 := leAt_lt 2 bytes 0
    have htype : leAt 2 bytes 2 < 0x10000 := leAt_lt 2 bytes 2
    have hpayload : (sliceAt bytes 4 (leAt 2 bytes 0 - 4)).length = leAt 2 bytes 0 - 4 :=
      length_sliceAt (by omega)
    -- Payload and padding are cut to their sizes, so the four pieces give back the bytes.
    have hsize : (sliceAt bytes 4 (leAt 2 bytes 0 - 4)).length + 4 = leAt 2 bytes 0 := by omega
    have hpad : (sliceAt bytes (leAt 2 bytes 0) (nlaAlign (leAt 2 bytes 0) - leAt 2 bytes 0)).length =
        paddingOf (sliceAt bytes 4 (leAt 2 bytes 0 - 4)) := by
      unfold paddingOf
      rw [hsize, length_sliceAt (by omega)]
    -- The list these pieces spell is the one of the bytes.
    have hlist := AttrList.cons htype (by omega) hpad hrest
    have hbytes : bytes = toLe 2 (leAt 2 bytes 0) ++ (toLe 2 (leAt 2 bytes 2) ++
        (sliceAt bytes 4 (leAt 2 bytes 0 - 4) ++
          (sliceAt bytes (leAt 2 bytes 0) (nlaAlign (leAt 2 bytes 0) - leAt 2 bytes 0) ++
            bytes.drop (nlaAlign (leAt 2 bytes 0))))) := by
      rw [append_drop (show leAt 2 bytes 0 + (nlaAlign (leAt 2 bytes 0) - leAt 2 bytes 0) = _ by omega),
        append_drop (show 4 + (leAt 2 bytes 0 - 4) = _ by omega), toLe_leAt_append (by omega),
        toLe_leAt_append (by omega)]
      rfl
    rw [hsize] at hlist
    simp only [List.append_assoc] at hlist
    rwa [← hbytes] at hlist

theorem reads_read {offset : Nat} (h : offset + size ≤ buffer.length) :
    Reads (read buffer offset size) (· = sliceAt buffer offset size) := by
  have hslice := @reads_slice Unit offset (offset + size) buffer (Nat.le_add_right ..) h
  rwa [Nat.add_sub_cancel_left] at hslice

theorem sliceAt_sliceAt {offset n : Nat} (h : offset + n ≤ size) :
    sliceAt (sliceAt buffer data size) offset n = sliceAt buffer (data + offset) n := by
  unfold sliceAt
  rw [List.drop_take, List.take_take, List.drop_drop, Nat.min_eq_left (by omega)]

theorem leAt_sliceAt {offset n : Nat} (h : offset + n ≤ size) :
    leAt n (sliceAt buffer data size) offset = leAt n buffer (data + offset) := by
  unfold leAt
  rw [sliceAt_sliceAt h]

theorem drop_sliceAt (buffer : Bytes) (data size n : Nat) :
    (sliceAt buffer data size).drop n = sliceAt buffer (data + n) (size - n) := by
  unfold sliceAt
  rw [List.drop_take, List.drop_drop]

theorem lookup_append_singleton {a : Attributes} {type type' : Nat} {value : Value} :
    (a ++ [(type, value)]).lookup type' = none ↔ a.lookup type' = none ∧ type' ≠ type := by
  rw [List.lookup_append]
  cases a.lookup type' with
  | some found => simp
  | none =>
      by_cases h : type' = type
      · simp [h]
      · simp [h, List.lookup_cons, beq_eq_false_iff_ne.mpr h]

/-- **The loop reads a list** behind the attributes it has found. -/
theorem reads_attributes (hinside : data + size ≤ buffer.length) (out : Attributes) :
    Reads (attributes buffer data size out) fun out' => ∃ attrs,
      AttrList attrs (sliceAt buffer data size) ∧ (attrs.map Prod.fst).Nodup ∧
        (∀ type ∈ attrs.map Prod.fst, out.lookup type = none) ∧ out' = out ++ placed data attrs := by
  induction size using Nat.strongRecOn generalizing data out with
  | _ size ih =>
  rw [attributes]
  simp only [dite_eq_ite]
  have hlength : (sliceAt buffer data size).length = size := length_sliceAt hinside
  by_cases hzero : size = 0
  · rw [if_pos hzero]
    subst hzero
    have hnil : sliceAt buffer data 0 = [] := List.eq_nil_of_length_eq_zero hlength
    refine (reads_pure out).congr fun out' => ?_
    constructor
    · rintro rfl
      exact ⟨[], hnil ▸ .nil, .nil, by simp, by simp [placed]⟩
    · rintro ⟨attrs, hlist, -, -, rfl⟩
      rw [hnil] at hlist
      simp [hlist.eq_nil, placed]
  rw [if_neg hzero]
  have hne : sliceAt buffer data size ≠ [] := by
    intro hnil
    rw [hnil] at hlength
    exact hzero hlength.symm
  simp only [attrList_iff hne, hlength]
  by_cases hfour : size < 4
  · rw [if_pos hfour]
    refine (reads_throw ()).congr fun out' => ⟨False.elim, ?_⟩
    rintro ⟨attrs, ⟨hge, -⟩, -⟩
    omega
  rw [if_neg hfour]
  have hfirst : leAt 2 (sliceAt buffer data 4) 0 = leAt 2 (sliceAt buffer data size) 0 := by
    rw [leAt_sliceAt (by omega), leAt_sliceAt (by omega)]
  have hsecond : leAt 2 (sliceAt buffer data 4) 2 = leAt 2 (sliceAt buffer data size) 2 := by
    rw [leAt_sliceAt (by omega), leAt_sliceAt (by omega)]
  generalize hlen : leAt 2 (sliceAt buffer data size) 0 = length at hfirst ⊢
  generalize leAt 2 (sliceAt buffer data size) 2 = word at hsecond ⊢
  have hle := le_nlaAlign length
  have hrest : ∀ h : ¬ (length < 4 ∨ length > size) ∧ ¬ nlaAlign length > size,
      Reads (attributes buffer (data + nlaAlign length) (size - nlaAlign length)
        (out ++ [(nlaType word, ⟨data + 4, length - 4⟩)])) _ :=
    fun h => ih _ (by omega) (by omega) _
  refine (reads_read (by omega)).bind_eq ?_
  rw [hfirst, hsecond]
  refine (Reads.unless fun h => Reads.unless fun h' => Reads.unless fun _ =>
    hrest ⟨h, h'⟩).congr fun out' => ?_
  rw [drop_sliceAt]
  -- the place of the first payload
  have hplaced : length ≤ size → 4 ≤ length → ∀ rest,
      placed data ((nlaType word, sliceAt (sliceAt buffer data size) 4 (length - 4)) :: rest) =
        [(nlaType word, ⟨data + 4, length - 4⟩)] ++ placed (data + nlaAlign length) rest := by
    intro hsize hlength4 rest
    have hpayload : (sliceAt (sliceAt buffer data size) 4 (length - 4)).length = length - 4 := by
      rw [sliceAt_sliceAt (by omega), length_sliceAt (by omega)]
    rw [placed, hpayload, Nat.sub_add_cancel hlength4]
    rfl
  constructor
  · rintro ⟨hsize, halign, hnew, attrs, hlist, hdistinct, hfresh, rfl⟩
    have hnone := Option.not_isSome_iff_eq_none.mp hnew
    refine ⟨_, ⟨by omega, by omega, by omega, attrs, hlist, rfl⟩, ?_, ?_, ?_⟩
    · refine List.nodup_cons.mpr ⟨fun hmem => ?_, hdistinct⟩
      exact (lookup_append_singleton.mp (hfresh _ hmem)).2 rfl
    · intro type hmem
      rcases List.mem_cons.mp hmem with rfl | hmem
      · exact hnone
      · exact (lookup_append_singleton.mp (hfresh _ hmem)).1
    · rw [hplaced (by omega) (by omega), List.append_assoc]
  · rintro ⟨attrs, ⟨-, hlength4, halign, rest, hlist, rfl⟩, hdistinct, hfresh, rfl⟩
    obtain ⟨hnot, hdistinct⟩ := List.nodup_cons.mp hdistinct
    have hnone : out.lookup (nlaType word) = none := hfresh _ (List.mem_cons_self ..)
    refine ⟨by omega, by omega, by simp [hnone], rest, hlist, hdistinct, ?_, ?_⟩
    · intro type hmem
      refine lookup_append_singleton.mpr ⟨hfresh _ (List.mem_cons_of_mem _ hmem), ?_⟩
      rintro rfl
      exact hnot hmem
    · rw [hplaced (by omega) (by omega), List.append_assoc]

end Attributes

/-! ### Reading by type -/

section Payloads

variable {buffer : Bytes} {a parent : Attributes} {attrs : List (Nat × Bytes)} {type size : Nat}

/-- Attributes with their payloads in place of where these are. -/
def payloads (buffer : Bytes) (a : Attributes) : List (Nat × Bytes) :=
  a.map fun entry => (entry.1, payloadAt buffer entry.2)

/-- **All payloads are inside of the buffer.** -/
def Within (buffer : Bytes) (a : Attributes) : Prop :=
  ∀ entry ∈ a, entry.2.data + entry.2.size ≤ buffer.length

theorem lookup_payloads (buffer : Bytes) (a : Attributes) (type : Nat) :
    (payloads buffer a).lookup type = (a.lookup type).map (payloadAt buffer) := by
  induction a with
  | nil => rfl
  | cons entry rest ih =>
      obtain ⟨key, value⟩ := entry
      show ((key, payloadAt buffer value) :: payloads buffer rest).lookup type = _
      rw [List.lookup_cons, List.lookup_cons, ih]
      cases type == key <;> rfl

theorem Within.of_lookup (h : Within buffer a) {value : Value} (hfind : a.lookup type = some value) :
    value.data + value.size ≤ buffer.length := by
  obtain ⟨before, after, rfl, -⟩ := List.lookup_eq_some_iff.mp hfind
  exact h _ (List.mem_append_right _ (List.mem_cons_self ..))

/-- A list is found in its places. -/
theorem placed_spec {data : Nat} (hlist : AttrList attrs (sliceAt buffer data size))
    (hinside : data + size ≤ buffer.length) :
    payloads buffer (placed data attrs) = attrs ∧ Within buffer (placed data attrs) := by
  induction attrs generalizing data size with
  | nil => exact ⟨rfl, by simp [Within, placed]⟩
  | cons entry rest ih =>
      have hlength : (sliceAt buffer data size).length = size := length_sliceAt hinside
      have hne : sliceAt buffer data size ≠ [] := by
        intro hnil
        rw [hnil] at hlist
        cases hlist.eq_nil
      obtain ⟨-, hfour, halign, rest', hrest, heq⟩ := (attrList_iff hne).mp hlist
      obtain ⟨rfl, rfl⟩ := List.cons.inj heq
      rw [hlength] at halign
      generalize leAt 2 (sliceAt buffer data size) 0 = length at *
      have hle := le_nlaAlign length
      rw [sliceAt_sliceAt (by omega)] at *
      have hpayload : (sliceAt buffer (data + 4) (length - 4)).length = length - 4 :=
        length_sliceAt (by omega)
      rw [drop_sliceAt] at hrest
      obtain ⟨hpayloads, hwithin⟩ := ih hrest (by omega)
      rw [placed, hpayload, Nat.sub_add_cancel hfour]
      refine ⟨congrArg _ hpayloads, fun entry hmem => ?_⟩
      rcases List.mem_cons.mp hmem with rfl | hmem
      · show data + 4 + (length - 4) ≤ _
        omega
      · exact hwithin entry hmem

theorem reads_find (a : Attributes) (type : Nat) :
    Reads (find a type) fun value => a.lookup type = some value := by
  unfold find
  split
  · rename_i hnone
    exact (reads_throw ()).congr fun value => ⟨False.elim, fun h => by cases hnone.symm.trans h⟩
  · rename_i value hsome
    refine (reads_pure value).congr fun value' => ?_
    rw [hsome, Option.some.injEq]
    exact eq_comm

/-- **An attribute of a size** is read. -/
theorem reads_copy (h : Within buffer a) (type size : Nat) :
    Reads (copy buffer a type size) (Holds (payloads buffer a) type size) := by
  have hread : ∀ value, a.lookup type = some value →
      Reads (if value.size ≠ size then refuse else read buffer value.data size) fun bytes =>
        ¬ value.size ≠ size ∧ bytes = sliceAt buffer value.data size := by
    intro value hfind
    refine Reads.unless fun hsize => reads_read ?_
    have := h.of_lookup hfind
    omega
  refine ((reads_find a type).bind hread).congr fun bytes => ?_
  unfold Holds
  rw [lookup_payloads]
  constructor
  · rintro ⟨value, hfind, hsize, rfl⟩
    obtain rfl := not_not.mp hsize
    rw [hfind]
    exact ⟨rfl, length_sliceAt (h.of_lookup hfind)⟩
  · rintro ⟨hfind, rfl⟩
    obtain ⟨value, hvalue, rfl⟩ := Option.map_eq_some_iff.mp hfind
    have hlength : (payloadAt buffer value).length = value.size := length_sliceAt (h.of_lookup hvalue)
    exact ⟨value, hvalue, not_not.mpr hlength.symm, by rw [hlength]; rfl⟩

/-- **A nested list** is read. -/
theorem reads_nested_bind {β : Type} {f : Attributes → Reader β}
    {T : List (Nat × Bytes) → β → Prop} (h : Within buffer parent)
    (hf : ∀ child, Within buffer child → Reads (f child) (T (payloads buffer child))) :
    Reads (nested buffer parent type >>= f)
      fun b => ∃ child, Nests (payloads buffer parent) type child ∧ T child b := by
  have hnested : Reads (nested buffer parent type) fun child => ∃ value attrs,
      parent.lookup type = some value ∧ IsAttributes (payloadAt buffer value) attrs ∧
        child = placed value.data attrs := by
    refine ((reads_find parent type).bind fun value hfind =>
      reads_attributes (h.of_lookup hfind) []).congr fun child => ?_
    constructor
    · rintro ⟨value, hfind, attrs, hlist, hdistinct, -, rfl⟩
      exact ⟨value, attrs, hfind, ⟨hlist, hdistinct⟩, rfl⟩
    · rintro ⟨value, attrs, hfind, ⟨hlist, hdistinct⟩, rfl⟩
      exact ⟨value, hfind, attrs, hlist, hdistinct, fun _ _ => rfl, rfl⟩
  have hplaced : ∀ value attrs, parent.lookup type = some value →
      IsAttributes (payloadAt buffer value) attrs →
      payloads buffer (placed value.data attrs) = attrs ∧ Within buffer (placed value.data attrs) :=
    fun value attrs hfind hattrs => placed_spec hattrs.list (h.of_lookup hfind)
  refine (hnested.bind (T := fun child b => T (payloads buffer child) b) ?_).congr fun b => ?_
  · rintro child ⟨value, attrs, hfind, hattrs, rfl⟩
    exact hf _ (hplaced value attrs hfind hattrs).2
  · unfold Nests
    rw [lookup_payloads]
    constructor
    · rintro ⟨-, ⟨value, attrs, hfind, hattrs, rfl⟩, hb⟩
      rw [(hplaced value attrs hfind hattrs).1] at hb
      exact ⟨attrs, ⟨_, by rw [hfind]; rfl, hattrs⟩, hb⟩
    · rintro ⟨attrs, ⟨payload, hfind, hattrs⟩, hb⟩
      obtain ⟨value, hvalue, rfl⟩ := Option.map_eq_some_iff.mp hfind
      refine ⟨_, ⟨value, attrs, hvalue, hattrs, rfl⟩, ?_⟩
      rwa [(hplaced value attrs hvalue hattrs).1]

theorem reads_tuple (h : Within buffer a) (type : Nat) (v4 : Bool) :
    Reads (tuple buffer a type v4) (HasTuple (payloads buffer a) type v4) := by
  unfold tuple
  refine reads_nested_bind (T := fun tuple ends => ∃ ip, Nests tuple ctaTupleIp ip ∧
    ∃ proto, Nests tuple ctaTupleProto proto ∧ HasEnds ip proto v4 ends) h fun tuple htuple => ?_
  refine reads_nested_bind (T := fun ip ends => ∃ proto,
    Nests (payloads buffer tuple) ctaTupleProto proto ∧ HasEnds ip proto v4 ends) htuple
    fun ip hip => ?_
  refine reads_nested_bind (T := fun proto ends => HasEnds (payloads buffer ip) proto v4 ends) htuple
    fun proto hproto => ?_
  exact (reads_copy hip _ _).bind fun src _ => (reads_copy hip _ _).bind fun dst _ =>
    (reads_copy hproto _ _).bind fun protocol _ => (reads_copy hproto _ _).bind fun sport _ =>
    (reads_copy hproto _ _).bind fun dport _ => reads_pure _

theorem reads_flowId (h : Within buffer a) :
    Reads (flowId buffer a) (HasId (payloads buffer a)) := by
  unfold flowId HasId
  rw [lookup_payloads]
  cases hfind : a.lookup ctaId with
  | none =>
      refine (reads_pure (0 : UInt32)).congr fun id => ?_
      simp [Holds, lookup_payloads, hfind]
  | some value =>
      refine ((reads_copy h ctaId 4).bind fun bytes _ => reads_pure (load32 bytes)).congr fun id => ?_
      simp

theorem port_eq_zero {bytes : Bytes} (h : bytes.length = 2) : port bytes = 0 ↔ bytes = [0, 0] := by
  have hlt := ofLe_lt bytes
  rw [h] at hlt
  constructor
  · intro hzero
    have hvalue := congrArg UInt16.toNat hzero
    rw [port, UInt16.toNat_ofNat', UInt16.toNat_zero] at hvalue
    have hnone : ofLe bytes = 0 := by omega
    rw [← toLe_ofLe bytes, h, hnone]
    rfl
  · rintro rfl
    rfl

theorem reads_checkZone (h : Within buffer a) :
    Reads (checkZone buffer a) fun _ => ZeroZone (payloads buffer a) := by
  unfold checkZone ZeroZone
  rw [lookup_payloads]
  cases hfind : a.lookup ctaZone with
  | none => exact (reads_pure PUnit.unit).congr fun _ => by simp
  | some value =>
      refine ((reads_copy h ctaZone 2).bind fun bytes _ =>
        Reads.unless fun _ => reads_pure PUnit.unit).congr fun _ => ?_
      simp only [Holds, lookup_payloads, hfind, Option.map_some, Option.some.injEq]
      constructor
      · rintro ⟨bytes, ⟨rfl, hlength⟩, hzero, -⟩
        exact .inr ((port_eq_zero hlength).mp (not_not.mp hzero))
      · rintro (hnone | hzero)
        · cases hnone
        · rw [hzero]
          exact ⟨_, ⟨rfl, rfl⟩, not_not.mpr rfl, trivial⟩

/-- The attributes, once split, describe one flow or none. -/
theorem reads_flowOf (h : Within buffer a) (family : Nat) (destroy : Bool) :
    Reads (flowOf buffer a family destroy) (Describes (payloads buffer a) family destroy) := by
  unfold flowOf
  -- The reply tuple has the protocol of the original one.
  have hreply : ∀ f : Flow, Reads (replySide buffer a f (family == afInet)) fun f' =>
      ∃ reply, HasTuple (payloads buffer a) ctaTupleReply (family == afInet) reply ∧
        ¬ reply.proto ≠ f.proto ∧ ∃ timeout, Holds (payloads buffer a) ctaTimeout 4 timeout ∧
        ∃ status, Holds (payloads buffer a) ctaStatus 4 status ∧
        f' = f.answered reply timeout status :=
    fun f => (reads_tuple h ctaTupleReply _).bind fun reply _ => Reads.unless fun _ =>
      (reads_copy h _ _).bind fun timeout _ => (reads_copy h _ _).bind fun status _ => reads_pure _
  -- A flow that is destroyed has no reply to be read.
  have hrest : ∀ (orig : Endpoints) (id : UInt32),
      Reads (if destroy then (return orig.flow family destroy id : Reader Flow)
        else replySide buffer a (orig.flow family destroy id) (family == afInet)) fun f =>
        if destroy then f = orig.flow family destroy id
        else ∃ reply timeout status,
          HasTuple (payloads buffer a) ctaTupleReply (family == afInet) reply ∧
          reply.proto = orig.proto ∧ Holds (payloads buffer a) ctaTimeout 4 timeout ∧
          Holds (payloads buffer a) ctaStatus 4 status ∧
          f = (orig.flow family destroy id).answered reply timeout status := by
    intro orig id
    cases destroy with
    | true => exact reads_pure _
    | false =>
        refine (hreply _).congr fun f => ?_
        constructor
        · rintro ⟨reply, htuple, hproto, timeout, htimeout, status, hstatus, rfl⟩
          exact ⟨reply, timeout, status, htuple, not_not.mp hproto, htimeout, hstatus, rfl⟩
        · rintro ⟨reply, timeout, status, htuple, hproto, htimeout, hstatus, rfl⟩
          exact ⟨reply, htuple, not_not.mpr hproto, timeout, htimeout, status, hstatus, rfl⟩
  refine ((reads_tuple h ctaTupleOrig _).bind fun orig _ => Reads.unless fun _ =>
    (reads_flowId h).bind fun id _ => (reads_checkZone h).bind fun _ _ => hrest orig id).congr
      fun f => ?_
  -- What is left are the same conditions, written two ways.
  unfold Describes
  constructor
  · rintro ⟨orig, htuple, hproto, id, hid, -, hzone, hf⟩
    refine ⟨orig, id, htuple, ?_, hid, hzone, hf⟩
    by_contra hnone
    exact hproto (not_or.mp hnone)
  · rintro ⟨orig, id, htuple, hproto, hid, hzone, hf⟩
    refine ⟨orig, htuple, fun hnone => ?_, id, hid, ⟨⟩, hzone, hf⟩
    exact hproto.elim hnone.1 hnone.2

end Payloads

/-! ### Reading a message -/

section Messages

variable {buffer : Bytes}

/-- The list of attributes of a message. -/
theorem reads_list {f : Attributes → Reader Flow} {T : List (Nat × Bytes) → Flow → Prop} {data size : Nat}
    (hinside : data + size ≤ buffer.length)
    (hf : ∀ a, Within buffer a → Reads (f a) (T (payloads buffer a))) :
    Reads (attributes buffer data size [] >>= f) fun flow =>
      ∃ attrs, IsAttributes (sliceAt buffer data size) attrs ∧ T attrs flow := by
  refine ((reads_attributes hinside []).bind (T := fun a flow => T (payloads buffer a) flow)
    ?_).congr fun flow => ?_
  · rintro _ ⟨attrs, hlist, -, -, rfl⟩
    exact hf _ (placed_spec hlist hinside).2
  · constructor
    · rintro ⟨_, ⟨attrs, hlist, hdistinct, -, rfl⟩, hflow⟩
      rw [List.nil_append, (placed_spec hlist hinside).1] at hflow
      exact ⟨attrs, ⟨hlist, hdistinct⟩, hflow⟩
    · rintro ⟨attrs, ⟨hlist, hdistinct⟩, hflow⟩
      refine ⟨_, ⟨attrs, hlist, hdistinct, fun _ _ => rfl, rfl⟩, ?_⟩
      rwa [List.nil_append, (placed_spec hlist hinside).1]

/-- The words of the two headers. -/
structure HeaderIs (buffer : Bytes) (command family : Nat) : Prop where
  size : messageStart ≤ buffer.length
  length : leAt 4 buffer 0 = buffer.length
  type : leAt 2 buffer 4 = 0x100 * nfnlSubsysCtnetlink + command
  family : leAt 1 buffer 16 = family
  version : leAt 1 buffer 17 = nfnetlinkV0

/-- A header that has been read is spelt out. -/
theorem HeaderIs.spelled {command family : Nat} (h : HeaderIs buffer command family) :
    ∃ rest res, rest.length = 10 ∧ res.length = 2 ∧ buffer.length < 2 ^ 32 ∧
      buffer = headerBytes buffer.length command family rest res ++ buffer.drop messageStart := by
  obtain ⟨hsize, hlength, htype, hfamily, hversion⟩ := h
  simp only [messageStart] at hsize ⊢
  have hlimit : leAt 4 buffer 0 < 2 ^ 32 := leAt_lt 4 buffer 0
  refine ⟨sliceAt buffer 6 10, sliceAt buffer 18 2, length_sliceAt (by omega),
    length_sliceAt (by omega), by omega, ?_⟩
  have hbytes : ([UInt8.ofNat family, UInt8.ofNat nfnetlinkV0] : Bytes) =
      toLe 1 (leAt 1 buffer 16) ++ toLe 1 (leAt 1 buffer 17) := by
    rw [hfamily, hversion]
    rfl
  calc buffer = toLe 4 (leAt 4 buffer 0) ++ (toLe 2 (leAt 2 buffer 4) ++ (sliceAt buffer 6 10 ++
        (toLe 1 (leAt 1 buffer 16) ++ (toLe 1 (leAt 1 buffer 17) ++ (sliceAt buffer 18 2 ++
          buffer.drop 20))))) := by
        rw [append_drop (show 18 + 2 = 20 from rfl), toLe_leAt_append (by omega),
          toLe_leAt_append (by omega), append_drop (show 6 + 10 = 16 from rfl),
          toLe_leAt_append (by omega), toLe_leAt_append (by omega)]
        rfl
    _ = _ := by
        rw [hlength, htype, headerBytes, hbytes]
        simp only [List.append_assoc]

/-- A header that is spelt out is read as it is. -/
theorem HeaderIs.of_spelled {command family length : Nat} {rest res body : Bytes}
    (hcommand : command < 0x100) (hfamily : family < 0x100) (hrest : rest.length = 10)
    (hres : res.length = 2) (hlimit : length < 2 ^ 32) (hlength : buffer.length = length)
    (hbuffer : buffer = headerBytes length command family rest res ++ body) :
    HeaderIs buffer command family ∧ buffer.drop messageStart = body := by
  have hbytes : ([UInt8.ofNat family, UInt8.ofNat nfnetlinkV0] : Bytes) =
      toLe 1 family ++ toLe 1 nfnetlinkV0 := rfl
  have hheader : (headerBytes length command family rest res).length = messageStart := by
    simp [headerBytes, hrest, hres, messageStart]
  have htotal := congrArg List.length hbuffer
  rw [List.length_append, hheader] at htotal
  have hdrop : buffer.drop messageStart = body := by rw [hbuffer, List.drop_left' hheader]
  have hwords : buffer = toLe 4 length ++ (toLe 2 (0x100 * nfnlSubsysCtnetlink + command) ++ (rest ++
      (toLe 1 family ++ (toLe 1 nfnetlinkV0 ++ (res ++ body))))) := by
    rw [hbuffer, headerBytes, hbytes]
    simp only [List.append_assoc]
  refine ⟨⟨by omega, ?_, ?_, ?_, ?_⟩, hdrop⟩
  · rw [hlength, hwords, leAt_toLe_append (by omega)]
  · rw [hwords]
    exact leAt_append_toLe (by simp) (by simp only [nfnlSubsysCtnetlink]; omega) _
  · rw [hwords, ← List.append_assoc (toLe 2 _), ← List.append_assoc (toLe 4 _)]
    exact leAt_append_toLe (by simp [hrest]) (by omega) _
  · rw [hwords, ← List.append_assoc rest, ← List.append_assoc (toLe 2 _),
      ← List.append_assoc (toLe 4 _)]
    exact leAt_append_toLe (by simp [hrest]) (by simp [nfnetlinkV0]) _

/-- **`parse_flow` reads the messages**, and nothing else. -/
theorem reads_parseFlow (buffer : Bytes) : Reads (parseFlow buffer) (IsMessage buffer) := by
  -- Behind the header stand the attributes, whatever it says.
  have hflow : messageStart ≤ buffer.length → ∀ family destroy,
      Reads (attributes buffer messageStart (buffer.length - messageStart) [] >>= fun a =>
        flowOf buffer a family destroy) fun flow => ∃ attrs,
          IsAttributes (sliceAt buffer messageStart (buffer.length - messageStart)) attrs ∧
            Describes attrs family destroy flow :=
    fun hsize family destroy => reads_list (by omega) fun a ha => reads_flowOf ha family destroy
  have hstart : messageStart = 20 := rfl
  have hread : messageStart ≤ buffer.length → Reads (read buffer 0 16) (· = sliceAt buffer 0 16) :=
    fun hsize => reads_read (by omega)
  have hread' : messageStart ≤ buffer.length →
      Reads (read buffer nlmsgHdrlen 4) (· = sliceAt buffer nlmsgHdrlen 4) :=
    fun hsize => reads_read (by simp only [nlmsgHdrlen]; omega)
  -- The checks in their order; each leaves the rest to be read.
  unfold parseFlow
  dsimp only
  refine (Reads.unless fun hsize => (hread (Nat.le_of_not_lt hsize)).bind_eq
    (Reads.unless fun htype => Reads.unless fun hcommand =>
      (hread' (Nat.le_of_not_lt hsize)).bind_eq (Reads.unless fun hfamily =>
        hflow (Nat.le_of_not_lt hsize) _ _))).congr fun flow => ?_
  have hbody : sliceAt buffer messageStart (buffer.length - messageStart) = buffer.drop messageStart := by
    rw [sliceAt, ← List.length_drop, List.take_length]
  rw [hbody, leAt_sliceAt (by omega), leAt_sliceAt (by omega), leAt_sliceAt (by omega),
    leAt_sliceAt (by omega)]
  simp only [Nat.zero_add, Nat.add_zero, Nat.reduceAdd, nlmsgHdrlen]
  constructor
  -- What the checks have found spells the header out.
  · rintro ⟨hsize, htype, hcommand, hfamily, attrs, hattrs, hflow⟩
    obtain ⟨hlength, hsubsys⟩ := not_or.mp htype
    obtain ⟨hfamily, hversion⟩ := not_or.mp hfamily
    have htype : leAt 2 buffer 4 = 0x100 * nfnlSubsysCtnetlink + leAt 2 buffer 4 % 0x100 := by
      rw [← not_not.mp hsubsys, Nat.div_add_mod]
    obtain ⟨rest, res, hrest, hres, hlimit, hbuffer⟩ :=
      HeaderIs.spelled ⟨Nat.le_of_not_lt hsize, not_not.mp hlength, htype, rfl, not_not.mp hversion⟩
    exact ⟨_, _, rest, res, _, attrs, by omega, by omega, hrest, hres, hlimit, hbuffer, hattrs, hflow⟩
  -- A header that is spelt out passes the checks.
  · rintro ⟨command, family, rest, res, body, attrs, hcommand, hfamily, hrest, hres, hlimit, hbuffer,
      hattrs, hflow⟩
    have hcommand' : command < 0x100 := by
      rcases hcommand with rfl | rfl <;> decide
    have hfamily' : family < 0x100 := by
      rcases hfamily with rfl | rfl <;> decide
    obtain ⟨⟨hsize, hlength, htype, hread, hversion⟩, rfl⟩ :=
      HeaderIs.of_spelled hcommand' hfamily' hrest hres hlimit rfl hbuffer
    have hlow : leAt 2 buffer 4 % 0x100 = command := by omega
    have hhigh : leAt 2 buffer 4 / 0x100 = nfnlSubsysCtnetlink := by omega
    rw [hlow, hhigh, hread]
    exact ⟨by omega, by omega, by omega, by omega, attrs, hattrs, hflow⟩

end Messages

end Mindone.Tether
