import Mindone.Tether.FlowMessages
import Mathlib.Data.List.GetD
import Mathlib.Data.List.TakeWhile
import Mathlib.Tactic.IntervalCases

/-!
# Mindone.Tether.FlowLaws

The laws of the flow parser: a flow that was read can be written as a message and **is read back**,
the key of a flow tells its connection, and a prefix contains the addresses that agree with it on its
first bits.
-/

namespace Mindone.Tether

open Lib Lib.Checked

/-! ### Writing a message -/

/-- An attribute with its padding. -/
def attrBytes (entry : Nat × Bytes) : Bytes :=
  toLe 2 (entry.2.length + 4) ++ toLe 2 entry.1 ++ entry.2 ++ List.replicate (paddingOf entry.2) 0

def listBytes (attrs : List (Nat × Bytes)) : Bytes := attrs.flatMap attrBytes

def ipAttrs (v4 : Bool) (src dst : Address) : List (Nat × Bytes) :=
  [(if v4 then ctaIpV4Src else ctaIpV6Src, src.toList.take (addressSize v4)),
    (if v4 then ctaIpV4Dst else ctaIpV6Dst, dst.toList.take (addressSize v4))]

def protoAttrs (proto : UInt8) (sport dport : UInt16) : List (Nat × Bytes) :=
  [(ctaProtoNum, [proto]), (ctaProtoSrcPort, toLe 2 sport.toNat), (ctaProtoDstPort, toLe 2 dport.toNat)]

def tupleAttrs (v4 : Bool) (ends : Endpoints) : List (Nat × Bytes) :=
  [(ctaTupleIp, listBytes (ipAttrs v4 ends.src ends.dst)),
    (ctaTupleProto, listBytes (protoAttrs ends.proto ends.sport ends.dport))]

def Flow.orig (f : Flow) : Endpoints := ⟨f.src, f.dst, f.sport, f.dport, f.proto⟩
def Flow.reply (f : Flow) : Endpoints := ⟨f.replySrc, f.pub, f.replyPort, f.publicPort, f.proto⟩

def Flow.v4 (f : Flow) : Bool := f.family == (afInet : Int)

/-- The attributes of a message about a flow. -/
def Flow.attrs (f : Flow) : List (Nat × Bytes) :=
  let new : List (Nat × Bytes) :=
    [(ctaTupleReply, listBytes (tupleAttrs f.v4 f.reply)),
      (ctaStatus, (toLe 4 f.status.toNat).reverse), (ctaTimeout, (toLe 4 f.timeout.toNat).reverse)]
  [(ctaTupleOrig, listBytes (tupleAttrs f.v4 f.orig)), (ctaId, toLe 4 f.id.toNat)] ++
    if f.destroy then [] else new

/-- **A message about a flow.** -/
def Flow.message (f : Flow) : Bytes :=
  let body := listBytes f.attrs
  headerBytes (messageStart + body.length)
    (if f.destroy then ipctnlMsgCtDelete else ipctnlMsgCtNew) (if f.v4 then afInet else afInet6)
    (List.replicate 10 0) (List.replicate 2 0) ++ body

/-! ### Reading it back -/

/-- An address as a family has it: the bytes behind its own are zero. -/
def Address.Fits (v4 : Bool) (address : Address) : Prop :=
  toAddress (address.toList.take (addressSize v4)) = address

/-- **A flow that a message can say.** -/
structure Flow.WellFormed (f : Flow) : Prop where
  family : f.family = afInet ∨ f.family = afInet6
  proto : f.proto = ipprotoTcp ∨ f.proto = ipprotoUdp
  src : f.src.Fits f.v4
  dst : f.dst.Fits f.v4
  replySrc : f.replySrc.Fits f.v4
  pub : f.pub.Fits f.v4
  destroyed : f.destroy = true → f.replySrc = noAddress ∧ f.pub = noAddress ∧ f.replyPort = 0 ∧
    f.publicPort = 0 ∧ f.timeout = 0 ∧ f.status = 0

theorem length_attrBytes (entry : Nat × Bytes) :
    (attrBytes entry).length = nlaAlign (entry.2.length + 4) := by
  have := le_nlaAlign (entry.2.length + 4)
  simp only [attrBytes, paddingOf, List.length_append, length_toLe, List.length_replicate]
  omega

theorem length_listBytes_cons (entry : Nat × Bytes) (rest : List (Nat × Bytes)) :
    (listBytes (entry :: rest)).length = nlaAlign (entry.2.length + 4) + (listBytes rest).length := by
  rw [listBytes, List.flatMap_cons, List.length_append, length_attrBytes]
  rfl

/-- Attributes with plain types and short payloads can be read back. -/
theorem attrList_listBytes {attrs : List (Nat × Bytes)}
    (h : ∀ entry ∈ attrs, entry.1 < 0x4000 ∧ entry.2.length + 4 < 0x10000) :
    AttrList attrs (listBytes attrs) := by
  induction attrs with
  | nil => exact .nil
  | cons entry rest ih =>
      obtain ⟨htype, hlength⟩ := h entry (List.mem_cons_self ..)
      have hplain : nlaType entry.1 = entry.1 := Nat.mod_eq_of_lt htype
      have hpad : (List.replicate (paddingOf entry.2) (0 : UInt8)).length = paddingOf entry.2 :=
        List.length_replicate
      have hsmall : entry.1 < 0x10000 := by omega
      have hlist := AttrList.cons hsmall hlength hpad
        (ih fun entry' hmem => h entry' (List.mem_cons_of_mem _ hmem))
      rwa [hplain] at hlist

theorem length_take_address (v4 : Bool) (address : Address) :
    (address.toList.take (addressSize v4)).length = addressSize v4 := by
  cases v4 <;> simp [addressSize]

theorem port_toLe (value : UInt16) : port (toLe 2 value.toNat) = value := by
  have := value.toNat_lt
  rw [port, ofLe_toLe (by omega), UInt16.ofNat_toNat]

theorem load32_toLe (value : UInt32) : load32 (toLe 4 value.toNat) = value := by
  have := value.toNat_lt
  rw [load32, ofLe_toLe (by omega), UInt32.ofNat_toNat]

theorem isAttributes_ipAttrs (v4 : Bool) (src dst : Address) :
    IsAttributes (listBytes (ipAttrs v4 src dst)) (ipAttrs v4 src dst) := by
  constructor
  · refine attrList_listBytes fun entry hmem => ?_
    simp only [ipAttrs, List.mem_cons, List.not_mem_nil, or_false] at hmem
    rcases hmem with rfl | rfl
    all_goals
      rw [length_take_address]
      cases v4 <;> simp [addressSize, ctaIpV4Src, ctaIpV4Dst, ctaIpV6Src, ctaIpV6Dst]
  · cases v4 <;> simp [ipAttrs, ctaIpV4Src, ctaIpV4Dst, ctaIpV6Src, ctaIpV6Dst]

theorem isAttributes_protoAttrs (proto : UInt8) (sport dport : UInt16) :
    IsAttributes (listBytes (protoAttrs proto sport dport)) (protoAttrs proto sport dport) := by
  constructor
  · refine attrList_listBytes fun entry hmem => ?_
    simp only [protoAttrs, List.mem_cons, List.not_mem_nil, or_false] at hmem
    rcases hmem with rfl | rfl | rfl <;> simp [ctaProtoNum, ctaProtoSrcPort, ctaProtoDstPort]
  · simp [protoAttrs, ctaProtoNum, ctaProtoSrcPort, ctaProtoDstPort]

theorem length_tuple (v4 : Bool) (ends : Endpoints) :
    (listBytes (tupleAttrs v4 ends)).length ≤ 72 := by
  have hnil : (listBytes []).length = 0 := rfl
  simp only [tupleAttrs, ipAttrs, protoAttrs, length_listBytes_cons, length_take_address, hnil,
    length_toLe, List.length_singleton]
  cases v4 <;> decide

theorem isAttributes_tupleAttrs (v4 : Bool) (ends : Endpoints) :
    IsAttributes (listBytes (tupleAttrs v4 ends)) (tupleAttrs v4 ends) := by
  have htuple := length_tuple v4 ends
  have hnil : (listBytes []).length = 0 := rfl
  simp only [tupleAttrs, length_listBytes_cons, hnil] at htuple
  have hip := le_nlaAlign ((listBytes (ipAttrs v4 ends.src ends.dst)).length + 4)
  have hproto := le_nlaAlign ((listBytes (protoAttrs ends.proto ends.sport ends.dport)).length + 4)
  constructor
  · refine attrList_listBytes fun entry hmem => ?_
    simp only [tupleAttrs, List.mem_cons, List.not_mem_nil, or_false] at hmem
    rcases hmem with rfl | rfl
    · exact ⟨by simp [ctaTupleIp], by dsimp only; omega⟩
    · exact ⟨by simp [ctaTupleProto], by dsimp only; omega⟩
  · simp [tupleAttrs, ctaTupleIp, ctaTupleProto]

/-- The tuple of two ends is found where it was written. -/
theorem hasTuple_tupleAttrs {attrs : List (Nat × Bytes)} {type : Nat} {v4 : Bool} {ends : Endpoints}
    (hsrc : ends.src.Fits v4) (hdst : ends.dst.Fits v4)
    (h : attrs.lookup type = some (listBytes (tupleAttrs v4 ends))) :
    HasTuple attrs type v4 ends := by
  have hsrc' : Holds (ipAttrs v4 ends.src ends.dst) (if v4 then ctaIpV4Src else ctaIpV6Src)
      (addressSize v4) (ends.src.toList.take (addressSize v4)) :=
    ⟨by cases v4 <;> rfl, length_take_address ..⟩
  have hdst' : Holds (ipAttrs v4 ends.src ends.dst) (if v4 then ctaIpV4Dst else ctaIpV6Dst)
      (addressSize v4) (ends.dst.toList.take (addressSize v4)) :=
    ⟨by cases v4 <;> rfl, length_take_address ..⟩
  refine ⟨_, ⟨_, h, isAttributes_tupleAttrs v4 ends⟩, _, ⟨_, rfl, isAttributes_ipAttrs ..⟩, _,
    ⟨_, rfl, isAttributes_protoAttrs ..⟩, _, hsrc', _, hdst', _, ⟨rfl, rfl⟩, _,
    ⟨rfl, length_toLe ..⟩, _, ⟨rfl, length_toLe ..⟩, ?_⟩
  rw [port_toLe, port_toLe, hsrc, hdst]
  rfl

/-- The attributes of a flow are spelt as they are read. -/
theorem isAttributes_attrs (f : Flow) : IsAttributes (listBytes f.attrs) f.attrs := by
  have horig := length_tuple f.v4 f.orig
  have hreply := length_tuple f.v4 f.reply
  constructor
  · refine attrList_listBytes fun entry hmem => ?_
    simp only [Flow.attrs] at hmem
    rcases List.mem_append.mp hmem with hmem | hmem
    · simp only [List.mem_cons, List.not_mem_nil, or_false] at hmem
      rcases hmem with rfl | rfl
      · exact ⟨by simp [ctaTupleOrig], by dsimp only; omega⟩
      · exact ⟨by simp [ctaId], by simp⟩
    · cases hdestroy : f.destroy with
      | true => simp [hdestroy] at hmem
      | false =>
          simp only [hdestroy, Bool.false_eq_true, if_false, List.mem_cons, List.not_mem_nil,
            or_false] at hmem
          rcases hmem with rfl | rfl | rfl
          · exact ⟨by simp [ctaTupleReply], by dsimp only; omega⟩
          · exact ⟨by simp [ctaStatus], by simp⟩
          · exact ⟨by simp [ctaTimeout], by simp⟩
  · cases hdestroy : f.destroy <;>
      simp [Flow.attrs, hdestroy, ctaTupleOrig, ctaId, ctaTupleReply, ctaStatus, ctaTimeout]

theorem length_attrs (f : Flow) : (listBytes f.attrs).length < 0x10000 := by
  have horig := length_tuple f.v4 f.orig
  have hreply := length_tuple f.v4 f.reply
  have hnil : (listBytes []).length = 0 := rfl
  have halign : ∀ n, nlaAlign n ≤ n + 3 := by
    intro n
    unfold nlaAlign
    omega
  have h1 := halign ((listBytes (tupleAttrs f.v4 f.orig)).length + 4)
  have h2 := halign ((listBytes (tupleAttrs f.v4 f.reply)).length + 4)
  have h3 := halign 8
  cases hdestroy : f.destroy <;>
    simp [Flow.attrs, hdestroy, length_listBytes_cons, hnil] <;> omega

theorem networkWord_reverse (value : UInt32) : networkWord (toLe 4 value.toNat).reverse = value := by
  rw [networkWord, List.reverse_reverse, load32_toLe]

theorem Flow.WellFormed.family_eq {f : Flow} (h : f.WellFormed) :
    f.family = ((if f.v4 then afInet else afInet6 : Nat) : Int) ∧
      ((if f.v4 then afInet else afInet6) == afInet) = f.v4 := by
  unfold Flow.v4
  rcases h.family with hfamily | hfamily
  · rw [hfamily]
    exact ⟨rfl, rfl⟩
  · rw [hfamily]
    exact ⟨rfl, rfl⟩

/-- **What a flow says is described by its attributes.** -/
theorem describes_attrs {f : Flow} (h : f.WellFormed) :
    Describes f.attrs (if f.v4 then afInet else afInet6) f.destroy f := by
  obtain ⟨hfamily, hv4⟩ := h.family_eq
  unfold Describes
  rw [hv4]
  refine ⟨f.orig, f.id, hasTuple_tupleAttrs h.src h.dst rfl, h.proto,
    .inr ⟨_, ⟨rfl, length_toLe ..⟩, (load32_toLe _).symm⟩, .inl ?_, ?_⟩
  · cases hdestroy : f.destroy <;> simp [Flow.attrs, hdestroy, ctaTupleOrig, ctaId, ctaTupleReply,
      ctaStatus, ctaTimeout, ctaZone]
  cases hdestroy : f.destroy with
  | true =>
      obtain ⟨hreplySrc, hpub, hreplyPort, hpublicPort, htimeout, hstatus⟩ := h.destroyed hdestroy
      rw [if_pos rfl]
      obtain ⟨family, proto, src, dst, pub, replySrc, sport, dport, publicPort, replyPort, timeout,
        status, id, destroy⟩ := f
      simp only at *
      subst hreplySrc hpub hreplyPort hpublicPort htimeout hstatus hdestroy
      simp only [Flow.orig, Endpoints.flow]
      congr 1
  | false =>
      have hlookup : ∀ type, f.attrs.lookup type =
          ([(ctaTupleOrig, listBytes (tupleAttrs f.v4 f.orig)), (ctaId, toLe 4 f.id.toNat),
            (ctaTupleReply, listBytes (tupleAttrs f.v4 f.reply)),
            (ctaStatus, (toLe 4 f.status.toNat).reverse),
            (ctaTimeout, (toLe 4 f.timeout.toNat).reverse)] : List (Nat × Bytes)).lookup type := by
        intro type
        simp [Flow.attrs, hdestroy]
      rw [if_neg Bool.false_ne_true]
      refine ⟨f.reply, _, _, hasTuple_tupleAttrs h.replySrc h.pub (hlookup ctaTupleReply), rfl,
        ⟨hlookup ctaTimeout, by simp⟩, ⟨hlookup ctaStatus, by simp⟩, ?_⟩
      rw [Flow.answered, networkWord_reverse, networkWord_reverse]
      obtain ⟨family, proto, src, dst, pub, replySrc, sport, dport, publicPort, replyPort, timeout,
        status, id, destroy⟩ := f
      simp only [Flow.orig, Flow.reply, Endpoints.flow] at *
      congr 1

/-- **A flow is read back from its message.** -/
theorem parseFlow_message {f : Flow} (h : f.WellFormed) : parseFlow f.message = .ok f := by
  refine ((reads_parseFlow _).iff f).mpr ?_
  have hlength : f.message.length = messageStart + (listBytes f.attrs).length := by
    simp only [Flow.message, headerBytes, messageStart, List.length_append, length_toLe,
      List.length_replicate, List.length_cons, List.length_nil]
  have hlimit := length_attrs f
  have hcommand : ((if f.destroy then ipctnlMsgCtDelete else ipctnlMsgCtNew) == ipctnlMsgCtDelete) =
      f.destroy := by
    cases f.destroy <;> rfl
  refine ⟨_, _, List.replicate 10 0, List.replicate 2 0, _, f.attrs, ?_, ?_, rfl, rfl, ?_, ?_,
    isAttributes_attrs f, hcommand ▸ describes_attrs h⟩
  · cases f.destroy <;> simp
  · cases f.v4 <;> simp
  · rw [hlength]
    simp only [messageStart]
    omega
  · rw [hlength]
    rfl

theorem fits_toAddress {v4 : Bool} {bytes : Bytes} (h : bytes.length = addressSize v4) :
    (toAddress bytes).Fits v4 := by
  apply Vector.ext
  intro i hi
  simp only [toAddress, Vector.getElem_ofFn]
  have hlist : (Vector.ofFn fun i : Fin 16 => bytes.getD i.val 0).toList[i]? = some (bytes.getD i 0) := by
    rw [Vector.getElem?_toList]
    simp [hi]
  rw [List.getD_eq_getElem?_getD, List.getElem?_take]
  split
  · rw [hlist, Option.getD_some]
  · rw [Option.getD_none, List.getD_eq_default _ _ (by omega)]

theorem HasTuple.fits {attrs : List (Nat × Bytes)} {type : Nat} {v4 : Bool} {ends : Endpoints}
    (h : HasTuple attrs type v4 ends) : ends.src.Fits v4 ∧ ends.dst.Fits v4 := by
  obtain ⟨_, _, _, _, _, _, src, hsrc, dst, hdst, _, _, _, _, _, _, rfl⟩ := h
  exact ⟨fits_toAddress hsrc.2, fits_toAddress hdst.2⟩

/-- Only such flows are read. -/
theorem wellFormed_of_parseFlow {buffer : Bytes} {f : Flow} (h : parseFlow buffer = .ok f) :
    f.WellFormed := by
  obtain ⟨command, family, -, -, -, attrs, -, hfamily, -, -, -, -, -, orig, id, horig, hproto, -, -,
    hflow⟩ := ((reads_parseFlow buffer).iff f).mp h
  have hv4 : ∀ f : Flow, f.family = (family : Int) → f.v4 = (family == afInet) := by
    intro f hf
    rw [Flow.v4, hf]
    rcases hfamily with rfl | rfl <;> rfl
  have hnone : noAddress.Fits (family == afInet) := by
    unfold Address.Fits
    rcases hfamily with rfl | rfl <;> decide +kernel
  have hfamily' : (family : Int) = afInet ∨ (family : Int) = afInet6 := by
    rcases hfamily with rfl | rfl <;> simp
  split at hflow
  · have hv4' : f.v4 = (family == afInet) := hv4 f (by rw [hflow]; rfl)
    subst hflow
    exact ⟨hfamily', hproto, hv4' ▸ horig.fits.1, hv4' ▸ horig.fits.2, hv4' ▸ hnone, hv4' ▸ hnone,
      fun _ => ⟨rfl, rfl, rfl, rfl, rfl, rfl⟩⟩
  · rename_i hnew
    obtain ⟨reply, timeout, status, hreply, -, -, -, hflow⟩ := hflow
    have hv4' : f.v4 = (family == afInet) := hv4 f (by rw [hflow]; rfl)
    subst hflow
    exact ⟨hfamily', hproto, hv4' ▸ horig.fits.1, hv4' ▸ horig.fits.2, hv4' ▸ hreply.fits.1,
      hv4' ▸ hreply.fits.2, fun hdestroy => absurd hdestroy hnew⟩

/-! ### Keys -/

theorem toLe_inj {n a b : Nat} (ha : a < 0x100 ^ n) (hb : b < 0x100 ^ n) (h : toLe n a = toLe n b) :
    a = b := by
  rw [← ofLe_toLe ha, h, ofLe_toLe hb]

theorem lowByte_inj {a b : Int} : lowByte a = lowByte b ↔ a % 0x100 = b % 0x100 := by
  unfold lowByte
  rw [← UInt8.toNat_inj, UInt8.toNat_ofNat', UInt8.toNat_ofNat']
  omega

/-- **Two keys are the same exactly if the connections are**, of whose families the key has the low
byte. -/
theorem key_eq_iff (f g : Flow) :
    f.key = g.key ↔ f.family % 0x100 = g.family % 0x100 ∧ f.proto = g.proto ∧ f.src = g.src ∧
      f.dst = g.dst ∧ f.sport = g.sport ∧ f.dport = g.dport := by
  have hport : ∀ {a b : UInt16}, toLe 2 a.toNat = toLe 2 b.toNat → a = b := by
    intro a b h
    have ha := a.toNat_lt
    have hb := b.toNat_lt
    exact UInt16.toNat_inj.mp (toLe_inj (by omega) (by omega) h)
  constructor
  · intro h
    unfold Flow.key at h
    obtain ⟨h, hdport⟩ := List.append_inj' h (by simp)
    obtain ⟨h, hsport⟩ := List.append_inj' h (by simp)
    obtain ⟨h, hdst⟩ := List.append_inj' h (by simp)
    obtain ⟨h, hsrc⟩ := List.append_inj' h (by simp)
    obtain ⟨hfamily, h⟩ := List.cons.inj h
    exact ⟨lowByte_inj.mp hfamily, (List.cons.inj h).1, Vector.toList_inj.mp hsrc,
      Vector.toList_inj.mp hdst, hport hsport, hport hdport⟩
  · rintro ⟨hfamily, hproto, hsrc, hdst, hsport, hdport⟩
    rw [Flow.key, Flow.key, lowByte_inj.mpr hfamily, hproto, hsrc, hdst, hsport, hdport]

/-! ### Prefixes -/

def IsDigit (c : UInt8) : Prop := 0x30 ≤ c ∧ c ≤ 0x39

/-- A bit of an address, the first one at the top of its first byte. -/
def addressBit (address : Address) (i : Nat) : Bool :=
  (address.toList.getD (i / 8) 0).toNat.testBit (7 - i % 8)

/-- The number of bits of a family. -/
def width (family : Nat) : Nat := if family = afInet then 32 else 128

/-- **A prefix of a family**: an address, a slash and a number of bits. -/
def ValidPrefix (inetPton : Nat → Bytes → Option Address) (text : Bytes) (family : Nat)
    (network : Address) (bits : Nat) : Prop :=
  ∃ ip mask, text = ip ++ slash :: mask ∧ slash ∉ ip ∧ 0 ∉ ip ∧ inetPton family ip = some network ∧
    mask ≠ [] ∧ (∀ c ∈ mask, IsDigit c) ∧ decimalFrom 0 mask = bits ∧ bits ≤ width family

section Prefixes

variable {inetPton : Nat → Bytes → Option Address} {text mask : Bytes} {family bits b : Nat}

theorem idxOf?_slash {i : Nat} (h : text.idxOf? slash = some i) :
    text = text.take i ++ slash :: text.drop (i + 1) ∧ slash ∉ text.take i := by
  induction text generalizing i with
  | nil => cases h
  | cons c rest ih =>
      rw [List.idxOf?_cons] at h
      split at h
      · rename_i hc
        obtain rfl := Option.some.inj h
        exact ⟨by rw [beq_iff_eq.mp hc]; rfl, by simp⟩
      · rename_i hc
        obtain ⟨j, hj, rfl⟩ := Option.map_eq_some_iff.mp h
        obtain ⟨hsplit, hnone⟩ := ih hj
        refine ⟨congrArg (c :: ·) hsplit, fun hmem => ?_⟩
        rcases List.mem_cons.mp hmem with heq | hmem
        · exact hc (beq_iff_eq.mpr heq.symm)
        · exact hnone hmem

theorem idxOf?_append_slash {ip : Bytes} (h : slash ∉ ip) (mask : Bytes) :
    (ip ++ slash :: mask).idxOf? slash = some ip.length := by
  induction ip with
  | nil => simp [List.idxOf?_cons]
  | cons c rest ih =>
      rw [List.mem_cons, not_or] at h
      rw [List.cons_append, List.idxOf?_cons, if_neg (by simpa using Ne.symm h.1), ih h.2]
      rfl

theorem le_decimalFrom (bits : Nat) (mask : Bytes) : bits ≤ decimalFrom bits mask := by
  induction mask generalizing bits with
  | nil => exact Nat.le_refl _
  | cons c rest ih =>
      have := ih (bits * 10 + (c.toNat - 0x30))
      rw [decimalFrom, List.foldl_cons]
      exact Nat.le_trans (by omega) this

theorem prefixBits_eq (h : prefixBits mask bits = some b) :
    (∀ c ∈ mask, IsDigit c) ∧ decimalFrom bits mask = b := by
  induction mask generalizing bits with
  | nil => exact ⟨by simp, Option.some.inj h⟩
  | cons c rest ih =>
      unfold prefixBits at h
      split at h
      · cases h
      · rename_i hc
        rw [not_or, not_or, UInt8.not_lt, UInt8.not_lt] at hc
        obtain ⟨hdigits, hvalue⟩ := ih h
        exact ⟨List.forall_mem_cons.mpr ⟨⟨hc.1, hc.2.1⟩, hdigits⟩, hvalue⟩

/-- A number that is small enough is read. -/
theorem prefixBits_of_digits (hdigits : ∀ c ∈ mask, IsDigit c) (h : decimalFrom bits mask ≤ 128) :
    prefixBits mask bits = some (decimalFrom bits mask) := by
  induction mask generalizing bits with
  | nil => rfl
  | cons c rest ih =>
      obtain ⟨hc, hrest⟩ := List.forall_mem_cons.mp hdigits
      have hle := le_decimalFrom bits (c :: rest)
      unfold prefixBits
      rw [if_neg (by rw [not_or, not_or, UInt8.not_lt, UInt8.not_lt]; exact ⟨hc.1, hc.2, by omega⟩)]
      exact ih hrest h

/-- The bits of a byte are compared by a mask. -/
theorem byteBit (a b : UInt8) {i : Nat} (h : i < 8) :
    ((a ^^^ b) &&& (128 >>> UInt8.ofNat i) == 0) = (a.toNat.testBit (7 - i) == b.toNat.testBit (7 - i)) := by
  have hmask : (128 >>> UInt8.ofNat i : UInt8).toNat = 2 ^ (7 - i) := by
    interval_cases i <;> rfl
  rw [Bool.eq_iff_iff, beq_iff_eq, ← UInt8.toNat_inj, UInt8.toNat_and, UInt8.toNat_xor, hmask,
    UInt8.toNat_zero, and_two_pow_eq_zero, Nat.testBit_xor, beq_iff_eq]
  cases a.toNat.testBit (7 - i) <;> cases b.toNat.testBit (7 - i) <;> decide

/-- **What `contains` accepts**, whether the prefix is a valid one or not. -/
theorem contains_iff (inetPton : Nat → Bytes → Option Address) (text : Bytes) (family : Nat)
    (ip : Address) :
    contains inetPton text family ip = true ↔ ∃ front mask network,
      text = front ++ slash :: mask ∧ slash ∉ front ∧ inetPton family (cString front) = some network ∧
        (∀ c ∈ mask, IsDigit c) ∧ decimalFrom 0 mask ≤ width family ∧
          ∀ i < decimalFrom 0 mask, addressBit ip i = addressBit network i := by
  have hwidth : width family ≤ 128 := by
    unfold width
    split <;> decide
  -- The loop over the bits compares the bits of the addresses.
  have hbits : ∀ (network : Address) (bits : Nat), ((List.range bits).all fun i =>
      (ip.toList.getD (i / 8) 0 ^^^ network.toList.getD (i / 8) 0) &&&
        (128 >>> UInt8.ofNat (i % 8)) == 0) = true ↔
      ∀ i < bits, addressBit ip i = addressBit network i := by
    intro network bits
    simp only [List.all_eq_true, List.mem_range, byteBit _ _ (Nat.mod_lt _ (by decide : 0 < 8)),
      beq_iff_eq, addressBit]
  unfold contains
  constructor
  · intro h
    split at h
    · cases h
    -- At the first slash the text is cut,
    rename_i at_ hat
    obtain ⟨htext, hnone⟩ := idxOf?_slash hat
    split at h
    · cases h
    rename_i network hnetwork
    split at h
    · cases h
    -- the mask is digits up to the end,
    rename_i bits hmask
    obtain ⟨hdigits, rfl⟩ := prefixBits_eq hmask
    rw [Bool.and_eq_true, decide_eq_true_iff, hbits] at h
    exact ⟨_, _, network, htext, hnone, hnetwork, hdigits, h.1, h.2⟩
  -- Conversely the cut is at the slash that is given, since the front has none.
  · rintro ⟨front, mask, network, rfl, hnone, hnetwork, hdigits, hle, hagree⟩
    have hmask : (front ++ slash :: mask).drop (front.length + 1) = mask := by simp
    have hbits' : prefixBits mask 0 = some (decimalFrom 0 mask) :=
      prefixBits_of_digits hdigits (Nat.le_trans hle hwidth)
    rw [idxOf?_append_slash hnone]
    simp only [List.take_left' rfl, hnetwork, hmask, hbits']
    rw [Bool.and_eq_true, decide_eq_true_iff, hbits]
    exact ⟨hle, hagree⟩

/-- The two forms that `contains` does not check: there is something behind the first slash, and no
terminator before it. -/
def Separated (text : Bytes) : Prop :=
  ∀ front mask, text = front ++ slash :: mask → slash ∉ front → mask ≠ [] ∧ 0 ∉ front

/-- The backend keeps no other prefixes. -/
theorem prefixOk_separated (h : prefixOk inetPton text = true) : Separated text := by
  intro front mask htext hnone
  subst htext
  unfold prefixOk at h
  have hmask : (front ++ slash :: mask).drop (front.length + 1) = mask := by simp
  rw [idxOf?_append_slash hnone] at h
  simp only [List.take_left' rfl, hmask] at h
  split at h
  · cases h
  rename_i hlength
  split at h
  · cases h
  refine ⟨fun hnil => hlength (by simp [hnil]), fun hzero => ?_⟩
  simp [address, hzero] at h

/-- **A prefix contains the addresses that agree with it.** -/
theorem contains_eq_true_iff (h : Separated text) (family : Nat) (ip : Address) :
    contains inetPton text family ip = true ↔ ∃ network bits,
      ValidPrefix inetPton text family network bits ∧
        ∀ i < bits, addressBit ip i = addressBit network i := by
  have hstring : ∀ {front : Bytes}, 0 ∉ front → cString front = front := by
    intro front hzero
    exact List.takeWhile_eq_self_iff.mpr fun c hc => bne_iff_ne.mpr fun heq => hzero (heq ▸ hc)
  rw [contains_iff]
  constructor
  · rintro ⟨front, mask, network, htext, hnone, hnetwork, hdigits, hle, hagree⟩
    obtain ⟨hmask, hzero⟩ := h front mask htext hnone
    rw [hstring hzero] at hnetwork
    exact ⟨network, _, ⟨front, mask, htext, hnone, hzero, hnetwork, hmask, hdigits, rfl, hle⟩, hagree⟩
  · rintro ⟨network, bits, ⟨front, mask, htext, hnone, hzero, hnetwork, -, hdigits, rfl, hle⟩, hagree⟩
    exact ⟨front, mask, network, htext, hnone, by rwa [hstring hzero], hdigits, hle, hagree⟩

end Prefixes

/-! ### The laws -/

/-- **The laws of the flow parser.** Messages are accepted exactly, without a read behind the buffer;
what was read is read back from its own message; the key tells the connection; and `contains` tells
the addresses of every prefix but those of two forms, which the backend does not keep. -/
theorem flow_parser_laws (inetPton : Nat → Bytes → Option Address) :
    (∀ buffer, parseFlow buffer ≠ .error .panic ∧
      ∀ f, parseFlow buffer = .ok f ↔ IsMessage buffer f) ∧
    (∀ buffer f, parseFlow buffer = .ok f → parseFlow f.message = .ok f) ∧
    (∀ f g : Flow, (f.family = afInet ∨ f.family = afInet6) → (g.family = afInet ∨ g.family = afInet6) →
      (f.key = g.key ↔ f.family = g.family ∧ f.proto = g.proto ∧ f.src = g.src ∧ f.dst = g.dst ∧
        f.sport = g.sport ∧ f.dport = g.dport)) ∧
    (∀ text, Separated text → ∀ family ip,
      (contains inetPton text family ip = true ↔ ∃ network bits,
        ValidPrefix inetPton text family network bits ∧
          ∀ i < bits, addressBit ip i = addressBit network i)) ∧
    ∀ text, prefixOk inetPton text = true → Separated text := by
  refine ⟨fun buffer => ⟨(reads_parseFlow buffer).no_panic, (reads_parseFlow buffer).iff⟩,
    fun buffer f h => parseFlow_message (wellFormed_of_parseFlow h), ?_,
    fun text h family ip => contains_eq_true_iff h family ip, fun text h => prefixOk_separated h⟩
  intro f g hf hg
  have hfamily : f.family % 0x100 = g.family % 0x100 ↔ f.family = g.family := by
    simp only [afInet, afInet6] at hf hg
    omega
  rw [key_eq_iff, hfamily]

/-- The library function, on the address of one network. -/
def tenNet (family : Nat) (text : Bytes) : Option Address :=
  if family = afInet ∧ text = [0x31, 0x30, 0x2e, 0x30, 0x2e, 0x30, 0x2e, 0x30] then
    some (toAddress [10, 0, 0, 0])
  else none

/-- `10.0.0.0/8` -/
def tenPrefix : Bytes := [0x31, 0x30, 0x2e, 0x30, 0x2e, 0x30, 0x2e, 0x30, 0x2f, 0x38]

/-- A NEW message of a TCP connection from 10.0.0.2:4000 to 192.168.1.9:80, with an attribute that
the parser does not look at. -/
def newMessage : Bytes :=
  [156, 0, 0, 0, 0x00, 0x01, 0, 0, 0, 0, 0, 0, 0, 0, 0, 0, 2, 0, 0, 0] ++
  -- the original direction
  [52, 0, 0x01, 0x80, 20, 0, 0x01, 0x80, 8, 0, 1, 0, 10, 0, 0, 2, 8, 0, 2, 0, 192, 168, 1, 9] ++
  [28, 0, 0x02, 0x80, 5, 0, 1, 0, 6, 0, 0, 0, 6, 0, 2, 0, 0x0f, 0xa0, 0, 0, 6, 0, 3, 0, 0, 80, 0, 0] ++
  -- the other one
  [52, 0, 0x02, 0x80, 20, 0, 0x01, 0x80, 8, 0, 1, 0, 192, 168, 1, 9, 8, 0, 2, 0, 100, 64, 0, 7] ++
  [28, 0, 0x02, 0x80, 5, 0, 1, 0, 6, 0, 0, 0, 6, 0, 2, 0, 0, 80, 0, 0, 6, 0, 3, 0, 0x9c, 0x40, 0, 0] ++
  [8, 0, 3, 0, 0, 0, 0, 14] ++ [8, 0, 7, 0, 0, 0, 0, 120] ++ [8, 0, 12, 0, 1, 2, 3, 4] ++
  [8, 0, 8, 0, 0, 0, 0, 1]

/-- What it says, with the ports in the byte order of the network. -/
def newFlow : Flow where
  family := afInet
  proto := 6
  src := toAddress [10, 0, 0, 2]
  dst := toAddress [192, 168, 1, 9]
  pub := toAddress [100, 64, 0, 7]
  replySrc := toAddress [192, 168, 1, 9]
  sport := 0xa00f
  dport := 0x5000
  publicPort := 0x409c
  replyPort := 0x5000
  timeout := 120
  status := 14
  id := 0x04030201
  destroy := false

/-- The message is parsed, and the flow is read back from its own one; its key is not that of the
same flow to another port; and a network contains one of its addresses. -/
theorem flow_parser_laws_tenNet :
    IsMessage newMessage newFlow ∧ parseFlow newFlow.message = .ok newFlow ∧
      newFlow.key ≠ { newFlow with dport := 0x5100 }.key ∧
      ∃ network bits, ValidPrefix tenNet tenPrefix afInet network bits ∧
        ∀ i < bits, addressBit (toAddress [10, 1, 2, 3]) i = addressBit network i := by
  obtain ⟨hparse, hback, hkey, hcontains, hkept⟩ := flow_parser_laws tenNet
  have hnew : parseFlow newMessage = .ok newFlow := by decide +kernel
  refine ⟨((hparse newMessage).2 newFlow).mp hnew, hback _ _ hnew, fun heq => ?_, ?_⟩
  · have hports := ((hkey _ _ (.inl rfl) (.inl rfl)).mp heq).2.2.2.2.2
    exact absurd hports (by decide)
  · exact (hcontains tenPrefix (hkept tenPrefix (by decide)) afInet (toAddress [10, 1, 2, 3])).mp
      (by decide)

/-- `10.0.0.0/` -/
def bareSlash : Bytes := [0x31, 0x30, 0x2e, 0x30, 0x2e, 0x30, 0x2e, 0x30, 0x2f]

/-- `10.0.0.0`, a terminator, and `/8` -/
def cutAddress : Bytes := [0x31, 0x30, 0x2e, 0x30, 0x2e, 0x30, 0x2e, 0x30, 0x00, 0x2f, 0x38]

/-- Without the check of the backend, a prefix with no number of bits contains every address, and
one with a terminator in its address those of what stands before it. -/
theorem contains_notPrefix :
    (contains tenNet bareSlash afInet (toAddress [192, 168, 0, 1]) = true ∧
      ¬ ∃ network bits, ValidPrefix tenNet bareSlash afInet network bits) ∧
    contains tenNet cutAddress afInet (toAddress [10, 1, 2, 3]) = true ∧
      ¬ ∃ network bits, ValidPrefix tenNet cutAddress afInet network bits := by
  -- the first slash is where it is
  have hfirst : ∀ {text ip mask : Bytes} {i : Nat}, text.idxOf? slash = some i →
      text = ip ++ slash :: mask → slash ∉ ip → ip = text.take i ∧ mask = text.drop (i + 1) := by
    intro text ip mask i hat htext hnone
    rw [htext, idxOf?_append_slash hnone] at hat
    obtain rfl := Option.some.inj hat
    rw [htext]
    exact ⟨(List.take_left' rfl).symm, by simp⟩
  refine ⟨⟨by decide, ?_⟩, by decide, ?_⟩
  · rintro ⟨network, bits, ip, mask, htext, hnone, -, -, hmask, -⟩
    exact hmask (hfirst (i := 8) (by decide) htext hnone).2
  · rintro ⟨network, bits, ip, mask, htext, hnone, hzero, -⟩
    rw [(hfirst (i := 9) (by decide) htext hnone).1] at hzero
    exact absurd (by decide) hzero

end Mindone.Tether
