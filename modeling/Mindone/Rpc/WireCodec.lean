import Mindone.Rpc.Wire
import Mathlib.Tactic.ByContra

/-!
# Mindone.Rpc.WireCodec

What a record is, apart from how it is read and written: the words of its header, an operation, a
count, and as many groups of a length, the bytes and their padding. `Request::parse` accepts the
records of the modem **and nothing else**, and what it returns is what they spell;
`encode_response` writes such a record or leaves the buffer alone. Neither leaves its buffers.
-/

namespace Mindone.Rpc

open Lib Lib.Checked

/-! ### The word of the channel -/

/-- The parts of the word stand side by side. -/
theorem toNat_channelWord (channel : UInt16) {sequence : UInt16} (h : sequence < 0x8000)
    (asserted : Bool) : (channelWord channel sequence asserted).toNat =
      channel.toNat + 0x10000 * sequence.toNat + if asserted then 0x80000000 else 0 := by
  have hchannel : channel.toNat < 2 ^ 16 := channel.toNat_lt
  have hsequence : sequence.toNat < 0x8000 := UInt16.lt_iff_toNat_lt.mp h
  have hshift : (sequence.toUInt32 <<< 16).toNat = 2 ^ 16 * sequence.toNat := by
    rw [UInt32.toNat_shiftLeft, UInt16.toNat_toUInt32, Nat.shiftLeft_eq]
    show sequence.toNat * 2 ^ 16 % 2 ^ 32 = _
    omega
  have hlow : (channel.toUInt32 ||| (sequence.toUInt32 <<< 16)).toNat =
      2 ^ 16 * sequence.toNat + channel.toNat := by
    rw [UInt32.toNat_or, hshift, UInt16.toNat_toUInt32, Nat.or_comm,
      Nat.two_pow_add_eq_or_of_lt hchannel]
  have htop : (channel.toUInt32 ||| (sequence.toUInt32 <<< 16)).toNat < 2 ^ 31 := by omega
  unfold channelWord
  cases asserted with
  | false =>
      rw [UInt32.toNat_or, hlow]
      simp
      omega
  | true =>
      have hor := Nat.two_pow_add_eq_or_of_lt htop 1
      rw [UInt32.toNat_or, Nat.or_comm]
      simp only [if_true, UInt32.reduceToNat]
      rw [Nat.mul_one] at hor
      rw [← hor, hlow]
      omega

theorem and_assertBit (w : UInt32) : (w &&& 0x80000000 != 0) = decide (0x80000000 ≤ w.toNat) := by
  have hw : w.toNat < 2 ^ 32 := w.toNat_lt
  have hmask : (0x80000000 : UInt32).toNat = 2 ^ 31 := rfl
  rw [Bool.eq_iff_iff, bne_iff_ne, decide_eq_true_iff, ne_eq, ← UInt32.toNat_inj, UInt32.toNat_and,
    UInt32.toNat_zero, hmask, and_two_pow_eq_zero, Bool.not_eq_false,
    Nat.testBit_eq_decide_div_mod_eq, decide_eq_true_iff]
  omega

theorem toNat_sequence (w : UInt32) :
    (((w >>> 16) &&& 0x7fff).toUInt16).toNat = w.toNat / 0x10000 % 0x8000 := by
  have hw : w.toNat < 2 ^ 32 := w.toNat_lt
  have hmask : ((w >>> 16) &&& 0x7fff).toNat = w.toNat / 0x10000 % 0x8000 := by
    rw [UInt32.toNat_and, UInt32.toNat_shiftRight, Nat.shiftRight_eq_div_pow]
    exact Nat.and_two_pow_sub_one_eq_mod _ 15
  rw [UInt32.toNat_toUInt16, hmask]
  omega

theorem channelWord_ofWords (w : UInt32) :
    channelWord w.toUInt16 ((w >>> 16) &&& 0x7fff).toUInt16 (w &&& 0x80000000 != 0) = w := by
  have hw : w.toNat < 2 ^ 32 := w.toNat_lt
  have hsequence : ((w >>> 16) &&& 0x7fff).toUInt16 < 0x8000 := by
    rw [UInt16.lt_iff_toNat_lt, toNat_sequence]
    exact Nat.mod_lt _ (by decide)
  apply UInt32.toNat_inj.mp
  rw [toNat_channelWord _ hsequence, toNat_sequence, UInt32.toNat_toUInt16, and_assertBit]
  split <;> simp_all <;> omega

theorem ofWords_channelWord (header : Header) (h : header.sequence < 0x8000) :
    Header.ofWords header.data0 header.data1
      (channelWord header.channel header.sequence header.asserted) header.requestIndex = header := by
  have hword := toNat_channelWord header.channel h header.asserted
  have hchannel : header.channel.toNat < 2 ^ 16 := header.channel.toNat_lt
  have hsequence : header.sequence.toNat < 0x8000 := UInt16.lt_iff_toNat_lt.mp h
  obtain ⟨data0, data1, channel, sequence, asserted, requestIndex⟩ := header
  dsimp only at hword hchannel hsequence h ⊢
  unfold Header.ofWords
  congr 1
  · apply UInt16.toNat_inj.mp
    rw [UInt32.toNat_toUInt16, hword]
    split <;> omega
  · apply UInt16.toNat_inj.mp
    rw [toNat_sequence, hword]
    split <;> omega
  · rw [and_assertBit, hword]
    cases asserted with
    | false => simp; omega
    | true => simp

/-! ### Records -/

/-- The bytes that fill up the last word. -/
def padding (length : Nat) : Nat := (length + 3) / 4 * 4 - length

/-- **Arguments, one group after the other**; `P` says what the padding may hold. -/
inductive Groups (P : Bytes → Prop) : List Bytes → Bytes → Prop
  | nil : Groups P [] []
  | cons {argument pad tail : Bytes} {arguments : List Bytes} (hlength : argument.length < 2 ^ 32)
      (hpad : pad.length = padding argument.length) (hP : P pad) (hrest : Groups P arguments tail) :
      Groups P (argument :: arguments) (toLe 4 argument.length ++ argument ++ pad ++ tail)

/-- The four words of a header. -/
def Header.bytes (header : Header) : Bytes :=
  toLeBytes header.data0 ++ toLeBytes header.data1 ++
    toLeBytes (channelWord header.channel header.sequence header.asserted) ++
    toLeBytes header.requestIndex

/-- **The bytes are a record** with this header, operation and arguments. -/
structure IsRecord (P : Bytes → Prop) (header : Header) (opcode : UInt32) (arguments : List Bytes)
    (bytes : Bytes) : Prop where
  sequence : header.sequence < 0x8000
  spelled : ∃ body, Groups P arguments body ∧
    bytes = header.bytes ++ toLeBytes opcode ++ toLe 4 arguments.length ++ body

/-- **What the modem may ask**, and the bytes it is asked with. -/
structure Accepted (request : Request) (input : Bytes) : Prop where
  least : recordBytes ≤ input.length
  most : input.length ≤ maxRecordBytes
  channel : request.header.channel = rxChannel
  index : request.header.requestIndex ≤ maxRequestIndex
  opcode : request.opcode < 0x10000
  arguments : request.arguments.length ≤ maxArguments
  record : IsRecord (fun _ => True) request.header request.opcode request.arguments input

@[simp] theorem length_toLeBytes (value : UInt32) : (toLeBytes value).length = 4 := length_toLe ..

theorem Header.length_bytes (header : Header) : header.bytes.length = 16 := by
  simp [Header.bytes]

theorem toLeBytes_fromLeBytes {bytes : Bytes} (h : bytes.length = 4) :
    toLeBytes (fromLeBytes bytes) = bytes := by
  have hlt := ofLe_lt bytes
  rw [h] at hlt
  unfold toLeBytes fromLeBytes
  rw [UInt32.toNat_ofNat', Nat.mod_eq_of_lt (by omega), ← h, toLe_ofLe]

theorem fromLeBytes_toLeBytes (value : UInt32) : fromLeBytes (toLeBytes value) = value := by
  have hvalue := value.toNat_lt
  unfold toLeBytes fromLeBytes
  rw [ofLe_toLe (by omega), UInt32.ofNat_toNat]

/-! ### Reading a record -/

section Parse

variable {input : Bytes} {offset : Nat} {E : Error → Prop}

theorem gives_word {Q : UInt32 → Prop} (hoffset : offset ≤ maxRecordBytes)
    (hsome : offset + 4 ≤ input.length → Q (fromLeBytes (sliceAt input offset 4)))
    (hnone : ¬ offset + 4 ≤ input.length → E .truncated) : Gives (word input offset) Q E := by
  have hlimit : offset + 4 < indexLimit := by
    simp only [maxRecordBytes, indexLimit] at hoffset ⊢
    omega
  unfold word
  rw [gives_bind, gives_add hlimit, gives_ite]
  split
  · rename_i h
    exact (gives_pure _).mpr (hsome h)
  · rename_i h
    exact (gives_throw _).mpr (hnone h)

theorem gives_aligned {Q : Nat → Prop} {length : Nat} (h : length < 2 ^ 32) :
    Gives (aligned length) Q E ↔ Q ((length + 3) / 4 * 4) := by
  have hlimit : length + 3 < indexLimit := by
    simp only [indexLimit]
    omega
  unfold aligned
  rw [gives_bind, gives_add hlimit]
  exact gives_pure _

theorem add_padding (length : Nat) : length + padding length = (length + 3) / 4 * 4 := by
  unfold padding
  omega

/-- A group at an offset: its length, its bytes and its padding. -/
theorem group_at {length : Nat} (hlength : length = (fromLeBytes (sliceAt input offset 4)).toNat)
    (hstop : offset + 4 + (length + 3) / 4 * 4 ≤ input.length) :
    input.drop offset = toLe 4 length ++ (input.drop (offset + 4)).take length ++
      (input.drop (offset + 4 + length)).take (padding length) ++
      input.drop (offset + 4 + (length + 3) / 4 * 4) := by
  have hslice : (sliceAt input offset 4).length = 4 := length_sliceAt (by omega)
  have hword : toLe 4 length = sliceAt input offset 4 := by
    rw [hlength]
    exact toLeBytes_fromLeBytes hslice
  rw [hword, ← add_padding, ← Nat.add_assoc, ← List.drop_drop (j := offset + 4 + length),
    List.append_assoc, List.append_assoc, List.take_append_drop,
    ← List.drop_drop (j := offset + 4), List.take_append_drop, ← List.drop_drop (j := offset),
    sliceAt, List.take_append_drop]

/-- The loop reads groups. -/
theorem gives_parseArguments (hinput : input.length ≤ maxRecordBytes) (count : Nat)
    (hoffset : offset ≤ input.length) :
    Gives (parseArguments input count offset)
      (fun out => out.1.length = count ∧ out.2 ≤ input.length ∧ ∃ body,
        Groups (fun _ => True) out.1 body ∧ input.drop offset = body ++ input.drop out.2)
      fun _ => True := by
  -- One group for each turn, each ending where the next begins.
  induction count generalizing offset with
  | zero => exact (gives_pure _).mpr ⟨rfl, hoffset, [], .nil, rfl⟩
  | succ count ih =>
      have hlimit : maxRecordBytes + maxRecordBytes < indexLimit := by decide
      unfold parseArguments
      rw [gives_bind]
      -- The length word may be cut off, and the argument may run over the end.
      refine gives_word (by omega) (fun hfour => ?_) fun _ => trivial
      generalize hlength : (fromLeBytes (sliceAt input offset 4)) = length
      have hword : length.toNat < 2 ^ 32 := length.toNat_lt
      rw [gives_bind, gives_add (by simp only [maxRecordBytes, indexLimit] at *; omega), gives_bind,
        gives_sub hfour, gives_ite]
      split
      · exact (gives_throw _).mpr trivial
      rename_i hroom
      rw [gives_bind, gives_add (by omega), gives_bind, gives_slice (by omega) (by omega), gives_bind,
        gives_aligned hword, gives_bind, gives_add (by omega), gives_ite]
      split
      · exact (gives_throw _).mpr trivial
      rename_i hstop
      rw [gives_bind]
      refine (ih (Nat.le_of_not_lt hstop)).mono ?_ fun _ _ => trivial
      rintro ⟨arguments, stop⟩ ⟨hcount, hstop', body, hbody, hdrop⟩
      -- What has been read is the group spelt by the argument.
      have hat := group_at (congrArg _ hlength.symm) (Nat.le_of_not_lt hstop)
      have hargument : ((input.drop (offset + 4)).take length.toNat).length = length.toNat := by
        rw [List.length_take, List.length_drop]
        omega
      rw [Nat.add_sub_cancel_left]
      have hpad : ((input.drop (offset + 4 + length.toNat)).take (padding length.toNat)).length =
          padding ((input.drop (offset + 4)).take length.toNat).length := by
        have := add_padding length.toNat
        rw [hargument, List.length_take, List.length_drop]
        omega
      refine (gives_pure _).mpr
        ⟨congrArg (· + 1) hcount, hstop', _, .cons (by omega) hpad trivial hbody, ?_⟩
      rw [hat, hdrop, hargument]
      simp only [List.append_assoc]

/-- The text behind the parts that are read. -/
theorem drop_of_drop {part rest : Bytes} {size : Nat} (h : input.drop offset = part ++ rest)
    (hsize : part.length = size) : input.drop (offset + size) = rest := by
  rw [← List.drop_drop, h, List.drop_left' hsize]

/-- The loop reads all the groups there are. -/
theorem gives_parseArguments_of_groups {P : Bytes → Prop} {arguments : List Bytes}
    {body tail : Bytes} (hbody : Groups P arguments body) (hdrop : input.drop offset = body ++ tail)
    (hinput : input.length ≤ maxRecordBytes) :
    Gives (parseArguments input arguments.length offset) (· = (arguments, offset + body.length))
      fun _ => False := by
  induction hbody generalizing offset with
  | nil => exact (gives_pure _).mpr rfl
  | @cons argument pad rest arguments hlength hpad _ hrest ih =>
      have hadd := add_padding argument.length
      have hsizes := congrArg List.length hdrop
      simp only [List.length_append, List.length_drop, length_toLe] at hsizes
      simp only [List.append_assoc] at hdrop
      have hargument := drop_of_drop hdrop (length_toLe ..)
      have hrest' := drop_of_drop (drop_of_drop hargument rfl) hpad
      have hword : (fromLeBytes (sliceAt input offset 4)).toNat = argument.length := by
        have hslice : sliceAt input offset 4 = toLe 4 argument.length := by
          rw [sliceAt, hdrop, List.take_left' (length_toLe ..)]
        rw [hslice, fromLeBytes, ofLe_toLe (by omega), UInt32.toNat_ofNat', Nat.mod_eq_of_lt hlength]
      simp only [maxRecordBytes] at hinput
      have hlimit : 4096 < indexLimit := by decide
      rw [List.length_cons]
      unfold parseArguments
      rw [gives_bind]
      refine gives_word (by simp only [maxRecordBytes]; omega) (fun _ => ?_) fun hshort => by omega
      rw [gives_bind, gives_add (by omega), gives_bind, gives_sub (by omega), gives_ite, hword,
        if_neg (by omega), gives_bind, gives_add (by omega), gives_bind,
        gives_slice (by omega) (by omega), gives_bind, gives_aligned hlength, gives_bind,
        gives_add (by omega), gives_ite, if_neg (by omega), gives_bind]
      rw [Nat.add_assoc (offset + 4), hadd] at hrest'
      refine (ih hrest').mono ?_ fun _ h => h
      rintro _ rfl
      refine (gives_pure _).mpr ?_
      rw [Nat.add_sub_cancel_left, hargument, List.take_left' rfl]
      simp only [List.length_append, length_toLe, Prod.mk.injEq, true_and]
      omega

/-! ### Requests -/

theorem sequence_ofWords (w : UInt32) : ((w >>> 16) &&& 0x7fff).toUInt16 < 0x8000 := by
  rw [UInt16.lt_iff_toNat_lt, toNat_sequence]
  exact Nat.mod_lt _ (by decide)

/-- An operation without a bit of the mask is below `0x10000`. -/
theorem and_responseMask (opcode : UInt32) : opcode &&& responseMask = 0 ↔ opcode < 0x10000 := by
  have hopcode : opcode.toNat < 2 ^ 32 := opcode.toNat_lt
  have hmask : ∀ i, responseMask.toNat.testBit i = (decide (16 ≤ i) && decide (i < 32)) := by
    intro i
    rw [show responseMask.toNat = (2 ^ 16 - 1) <<< 16 from rfl, Nat.testBit_shiftLeft,
      Nat.testBit_two_pow_sub_one]
    by_cases h : 16 ≤ i
    · simp only [h, decide_true, Bool.true_and, decide_eq_decide]
      omega
    · simp [h]
  rw [← UInt32.toNat_inj, UInt32.lt_iff_toNat_lt, UInt32.toNat_and]
  constructor
  · intro hzero
    by_contra hlarge
    have hlog : 2 ^ 16 ≤ opcode.toNat := Nat.le_of_not_lt hlarge
    obtain ⟨i, hi, hbit⟩ := Nat.exists_ge_and_testBit_of_ge_two_pow hlog
    have hlt : i < 32 := by
      by_contra hge
      rw [Nat.testBit_lt_two_pow (Nat.lt_of_lt_of_le hopcode
        (Nat.pow_le_pow_right (by decide) (Nat.le_of_not_lt hge)))] at hbit
      cases hbit
    have hclear := congrArg (Nat.testBit · i) hzero
    simp [Nat.testBit_and, hmask, hbit, hi, hlt] at hclear
  · intro hsmall
    refine Nat.eq_of_testBit_eq fun i => ?_
    rw [Nat.testBit_and, hmask, UInt32.toNat_zero, Nat.zero_testBit]
    by_cases hi : 16 ≤ i
    · rw [Nat.testBit_lt_two_pow (Nat.lt_of_lt_of_le hsmall (Nat.pow_le_pow_right Nat.two_pos hi)),
        Bool.false_and]
    · simp [hi]

/-- The word at an offset. -/
theorem word_at (h : offset + 4 ≤ input.length) :
    input.drop offset =
      toLeBytes (fromLeBytes (sliceAt input offset 4)) ++ input.drop (offset + 4) := by
  rw [toLeBytes_fromLeBytes (length_sliceAt h), ← List.drop_drop, sliceAt, List.take_append_drop]

/-- The six words at the front. -/
theorem words_at (h : 24 ≤ input.length) :
    input = toLeBytes (fromLeBytes (sliceAt input 0 4)) ++
      (toLeBytes (fromLeBytes (sliceAt input 4 4)) ++
      (toLeBytes (fromLeBytes (sliceAt input 8 4)) ++
      (toLeBytes (fromLeBytes (sliceAt input 12 4)) ++
      (toLeBytes (fromLeBytes (sliceAt input 16 4)) ++
      (toLeBytes (fromLeBytes (sliceAt input 20 4)) ++ input.drop 24))))) := by
  have h0 := word_at (show 0 + 4 ≤ input.length by omega)
  have h4 := word_at (show 4 + 4 ≤ input.length by omega)
  have h8 := word_at (show 8 + 4 ≤ input.length by omega)
  have h12 := word_at (show 12 + 4 ≤ input.length by omega)
  have h16 := word_at (show 16 + 4 ≤ input.length by omega)
  have h20 := word_at (show 20 + 4 ≤ input.length by omega)
  rw [← h20, ← h16, ← h12, ← h8, ← h4, ← h0]
  rfl

/-- **Only what is spelt is accepted**, and nothing overruns. -/
theorem gives_parse (input : Bytes) :
    Gives (Request.parse input) (fun request => Accepted request input) fun _ => True := by
  unfold Request.parse
  rw [gives_ite]
  split
  · exact (gives_throw _).mpr trivial
  rename_i hleast
  rw [gives_ite]
  split
  · exact (gives_throw _).mpr trivial
  rename_i hmost
  have hleast := Nat.le_of_not_lt hleast
  have hmost := Nat.le_of_not_lt hmost
  have hsize : 24 ≤ input.length := hleast
  have hword : ∀ {offset : Nat} {Q : UInt32 → Prop}, offset + 4 ≤ 24 →
      (Q (fromLeBytes (sliceAt input offset 4))) →
      Gives (word input offset) Q fun _ => True := by
    intro offset Q hoffset hQ
    refine gives_word ?_ (fun _ => hQ) fun _ => trivial
    simp only [maxRecordBytes]
    omega
  -- the four words of the header
  rw [gives_bind]
  refine hword (by omega) ?_
  rw [gives_bind]
  refine hword (by omega) ?_
  rw [gives_bind]
  refine hword (by omega) ?_
  rw [gives_bind]
  refine hword (by omega) ?_
  dsimp only
  rw [gives_ite]
  split
  · exact (gives_throw _).mpr trivial
  rename_i hchannel
  rw [gives_ite]
  split
  · exact (gives_throw _).mpr trivial
  rename_i hindex
  rw [gives_bind]
  refine hword (by omega) ?_
  rw [gives_ite]
  split
  · exact (gives_throw _).mpr trivial
  rename_i hopcode
  rw [gives_bind]
  refine hword (by omega) ?_
  rw [gives_ite]
  split
  · exact (gives_throw _).mpr trivial
  rename_i hcount
  rw [gives_bind]
  refine (gives_parseArguments hmost _ hleast).mono ?_ fun _ _ => trivial
  rintro ⟨arguments, stop⟩ ⟨hlength, hstop, body, hbody, hdrop⟩
  dsimp only
  rw [gives_ite]
  split
  · exact (gives_throw _).mpr trivial
  rename_i hend
  refine (gives_pure _).mpr ?_
  obtain rfl : stop = input.length := not_not.mp hend
  refine {
    least := hleast
    most := hmost
    channel := not_not.mp hchannel
    index := UInt32.not_lt.mp hindex
    opcode := (and_responseMask _).mp (not_not.mp hopcode)
    arguments := hlength ▸ Nat.le_of_not_lt hcount
    record := ⟨sequence_ofWords _, body, hbody, ?_⟩ }
  rw [List.drop_length, List.append_nil] at hdrop
  have hwords := words_at hsize
  rw [show input.drop 24 = body from hdrop] at hwords
  rw [Header.bytes, Header.ofWords]
  dsimp only
  have hcountWord : toLe 4 (fromLeBytes (sliceAt input 20 4)).toNat =
      toLeBytes (fromLeBytes (sliceAt input 20 4)) := rfl
  rw [channelWord_ofWords, hlength, hcountWord]
  simpa only [List.append_assoc] using hwords

/-- A record is read as what it spells. -/
theorem gives_parse_of_accepted {request : Request} (h : Accepted request input) :
    Gives (Request.parse input) (· = request) fun _ => False := by
  obtain ⟨hleast, hmost, hchannel, hindex, hopcode, harguments, hsequence, body, hbody, rfl⟩ := h
  obtain ⟨header, opcode, arguments⟩ := request
  dsimp only at *
  have hchannel' := ofWords_channelWord header hsequence
  generalize hinput : header.bytes ++ toLeBytes opcode ++ toLe 4 arguments.length ++ body = input
    at hleast hmost
  simp only [Header.bytes, List.append_assoc] at hinput
  -- The six words stand one behind the other; each offset is that of the word before, four bytes
  -- on.
  have hdrop : input.drop 0 = _ := hinput.symm
  have hdrop4 := drop_of_drop hdrop (length_toLeBytes _)
  have hdrop8 := drop_of_drop hdrop4 (length_toLeBytes _)
  have hdrop12 := drop_of_drop hdrop8 (length_toLeBytes _)
  have hdrop16 := drop_of_drop hdrop12 (length_toLeBytes _)
  have hdrop20 := drop_of_drop hdrop16 (length_toLeBytes _)
  have hdrop24 := drop_of_drop hdrop20 (length_toLe ..)
  -- One read: a word that stands in the header is there and has the value spelt.
  have hword : ∀ {offset : Nat} {value : UInt32} {rest : Bytes} {Q : UInt32 → Prop},
      input.drop offset = toLeBytes value ++ rest → offset + 4 ≤ 24 → Q value →
      Gives (word input offset) Q fun _ => False := by
    intro offset value rest Q hdrop hoffset hQ
    simp only [recordBytes] at hleast
    refine gives_word ?_ (fun _ => ?_) fun hshort => by omega
    · simp only [maxRecordBytes]
      omega
    · rwa [sliceAt, hdrop, List.take_left' (length_toLeBytes value), fromLeBytes_toLeBytes]
  have hcount : toLe 4 arguments.length = toLeBytes (UInt32.ofNat arguments.length) := by
    simp only [maxArguments] at harguments
    rw [toLeBytes, UInt32.toNat_ofNat', Nat.mod_eq_of_lt (by omega)]
  rw [hcount] at hdrop20
  -- From here the checks of the parser are gone through in its order.
  unfold Request.parse
  rw [gives_ite, if_neg (Nat.not_lt.mpr hleast), gives_ite, if_neg (Nat.not_lt.mpr hmost), gives_bind]
  refine hword hdrop8 (by omega) ?_
  rw [gives_bind]
  refine hword hdrop (by omega) ?_
  rw [gives_bind]
  refine hword hdrop4 (by omega) ?_
  rw [gives_bind]
  refine hword hdrop12 (by omega) ?_
  rw [hchannel']
  dsimp only
  rw [gives_ite, if_neg (not_not.mpr hchannel), gives_ite, if_neg (UInt32.not_lt.mpr hindex), gives_bind]
  refine hword hdrop16 (by omega) ?_
  rw [gives_ite, if_neg (not_not.mpr ((and_responseMask _).mpr hopcode)), gives_bind]
  refine hword hdrop20 (by omega) ?_
  have hcount' : (UInt32.ofNat arguments.length).toNat = arguments.length := by
    simp only [maxArguments] at harguments
    rw [UInt32.toNat_ofNat', Nat.mod_eq_of_lt (by omega)]
  rw [gives_ite, hcount', if_neg (Nat.not_lt.mpr harguments), gives_bind]
  have hrest : input.drop recordBytes = body ++ [] := by rw [List.append_nil]; exact hdrop24
  -- The arguments take up the rest, so the last check on the length passes.
  refine (gives_parseArguments_of_groups hbody hrest hmost).mono ?_ fun _ h => h
  rintro _ rfl
  have hend : recordBytes + body.length = input.length := by
    rw [← hinput]
    simp [recordBytes]
    omega
  dsimp only
  rw [gives_ite, if_neg (not_not.mpr hend)]
  exact (gives_pure _).mpr rfl

/-- **Exactly the records of the modem are accepted**, as what they spell. -/
theorem parse_eq_ok_iff {request : Request} :
    Request.parse input = .ok request ↔ Accepted request input := by
  constructor
  · exact fun h => (gives_parse input).of_ok h
  · intro h
    obtain ⟨request', hparse, rfl⟩ := (gives_parse_of_accepted h).exists_ok
    exact hparse

end Parse

/-! ### Writing a record -/

/-- The length of an argument with its padding and the length in front of it. -/
def groupLength (argument : Bytes) : Nat := 4 + (argument.length + 3) / 4 * 4

/-- The length of the record with some arguments. -/
def recordLength (arguments : List Bytes) : Nat := recordBytes + (arguments.map groupLength).sum

/-- The record with some arguments can be written. -/
def Fits (arguments : List Bytes) (output : Bytes) : Prop :=
  arguments.length ≤ maxArguments ∧ recordLength arguments ≤ maxRecordBytes ∧
    recordLength arguments ≤ output.length

/-- The header of the answer to a request. -/
def Header.reply (header : Header) (length : Nat) : Header :=
  { header with data1 := UInt32.ofNat length, channel := txChannel }

def AllZero (pad : Bytes) : Prop := ∀ b ∈ pad, b = 0

section Encode

variable {arguments : List Bytes} {offset length : Nat}

/-- The bytes of the arguments. -/
def argumentBytes (arguments : List Bytes) : Bytes :=
  arguments.flatMap fun argument =>
    toLe 4 argument.length ++ argument ++ List.replicate (padding argument.length) 0

/-- The length of a reply, or that it is too long. -/
theorem gives_encodedLength (h : length ≤ maxRecordBytes) :
    Gives (encodedLength arguments length)
      (fun n => n = length + (arguments.map groupLength).sum ∧ n ≤ maxRecordBytes)
      fun _ => maxRecordBytes < length + (arguments.map groupLength).sum := by
  simp only [maxRecordBytes] at *
  induction arguments generalizing length with
  | nil => exact (gives_pure _).mpr ⟨rfl, h⟩
  | cons argument arguments ih =>
      have hlimit : 8192 < indexLimit := by decide
      rw [List.map_cons, List.sum_cons]
      unfold encodedLength
      rw [gives_ite]
      split
      · rename_i hlarge
        refine (gives_throw _).mpr ?_
        simp only [groupLength, maxRecordBytes] at *
        omega
      rename_i hsmall
      simp only [maxRecordBytes] at hsmall
      rw [gives_bind, gives_aligned (by omega), gives_bind, gives_add (by omega), gives_bind,
        gives_add (by omega), gives_ite]
      split
      · rename_i hlarge
        refine (gives_throw _).mpr ?_
        simp only [groupLength, maxRecordBytes] at *
        omega
      · rename_i hroom
        have hrest := ih (Nat.le_of_not_lt hroom)
        simpa only [groupLength, Nat.add_assoc] using hrest

theorem groups_argumentBytes (h : recordLength arguments ≤ maxRecordBytes) :
    Groups AllZero arguments (argumentBytes arguments) := by
  simp only [recordLength, maxRecordBytes] at h
  induction arguments with
  | nil => exact .nil
  | cons argument arguments ih =>
      rw [List.map_cons, List.sum_cons, groupLength] at h
      exact .cons (by omega) List.length_replicate (fun _ hb => List.eq_of_mem_replicate hb)
        (ih (by omega))

theorem length_argumentBytes (arguments : List Bytes) :
    (argumentBytes arguments).length = (arguments.map groupLength).sum := by
  unfold argumentBytes
  rw [List.length_flatMap]
  refine congrArg List.sum (List.map_congr_left fun argument _ => ?_)
  have := add_padding argument.length
  simp only [List.length_append, length_toLe, List.length_replicate, groupLength]
  omega

/-- The loop fills the zeros behind the front. -/
theorem ends_writeArguments {front rest : Bytes} (hfront : front.length = offset)
    (h : offset + (arguments.map groupLength).sum ≤ maxRecordBytes) :
    Ends (writeArguments arguments offset)
      (front ++ (List.replicate (arguments.map groupLength).sum 0 ++ rest))
      (fun _ output => output = front ++ (argumentBytes arguments ++ rest))
      (Refuses fun _ _ => False) := by
  simp only [maxRecordBytes] at h
  induction arguments generalizing front offset with
  | nil => exact (ends_pure _).mpr rfl
  | cons argument arguments ih =>
      have hlimit : 8192 < indexLimit := by decide
      have hpadding := add_padding argument.length
      rw [List.map_cons, List.sum_cons, groupLength] at h ⊢
      rw [← hpadding, List.replicate_add, List.replicate_add, List.replicate_add]
      simp only [List.append_assoc]
      unfold writeArguments
      rw [ends_bind]
      refine ends_ofExcept ((gives_add (by omega)).mpr ?_)
      rw [ends_bind]
      refine ends_copy_append hfront (by simp) (by simp) ?_
      rw [ends_bind]
      refine ends_ofExcept ((gives_add (by omega)).mpr ?_)
      rw [ends_bind]
      refine ends_copy_append (by simp [hfront]) (by simp) (by simp) ?_
      rw [ends_bind]
      refine ends_ofExcept ((gives_aligned (by omega)).mpr ?_)
      rw [ends_bind]
      refine ends_ofExcept ((gives_add (by omega)).mpr ?_)
      rw [← List.append_assoc (_ ++ argument)]
      refine (ih ?_ (by omega)).mono ?_ fun _ _ h => h
      · simp only [List.length_append, length_toLe, List.length_replicate]
        omega
      · rintro _ _ rfl
        simp only [argumentBytes, List.flatMap_cons, List.append_assoc]

/-- The header of a reply. -/
theorem ends_writeHeader (request : Request) (rest : Bytes) (hlength : length ≤ maxRecordBytes)
    (count : Nat) :
    Ends (writeHeader request length count) (List.replicate recordBytes 0 ++ rest)
      (fun _ output => output = (request.header.reply length).bytes ++
        toLeBytes (request.opcode ||| responseMask) ++ toLe 4 count ++ rest)
      (Refuses fun _ _ => False) := by
  let zeros : Bytes := List.replicate 4 0
  have hzeros : List.replicate recordBytes 0 ++ rest =
      [] ++ (zeros ++ (zeros ++ (zeros ++ (zeros ++ (zeros ++ (zeros ++ rest)))))) := rfl
  have hdata1 : toLeBytes (UInt32.ofNat length) = toLe 4 length := by
    simp only [maxRecordBytes] at hlength
    rw [toLeBytes, UInt32.toNat_ofNat', Nat.mod_eq_of_lt (by omega)]
  rw [hzeros]
  unfold writeHeader
  rw [ends_bind]
  refine ends_copy_append rfl rfl (by simp [zeros]) ?_
  rw [ends_bind]
  refine ends_copy_append (by simp) rfl (by simp [zeros]) ?_
  rw [ends_bind]
  refine ends_copy_append (by simp) rfl (by simp [zeros]) ?_
  rw [ends_bind]
  refine ends_copy_append (by simp) rfl (by simp [zeros]) ?_
  rw [ends_bind]
  refine ends_copy_append (by simp) rfl (by simp [zeros]) ?_
  refine ends_copy_append (by simp) rfl (by simp [zeros]) ?_
  simp only [Header.bytes, Header.reply, hdata1, List.nil_append, List.append_assoc]

/-- **The encoder writes the record, or nothing.** -/
theorem ends_encodeResponse (request : Request) (hsequence : request.header.sequence < 0x8000)
    (arguments : List Bytes) (output : Bytes) :
    Ends (encodeResponse request arguments) output
      (fun n output' => Fits arguments output ∧ n = recordLength arguments ∧
        IsRecord AllZero (request.header.reply n) (request.opcode ||| responseMask) arguments
          (output'.take n) ∧
        output'.drop n = output.drop n ∧ output'.length = output.length)
      (Refuses fun _ output' => ¬ Fits arguments output ∧ output' = output) := by
  unfold encodeResponse
  rw [ends_ite]
  split
  · rename_i hmany
    exact (ends_throw _).mpr ⟨_, rfl, fun hfits => absurd hfits.1 (Nat.not_le.mpr hmany), rfl⟩
  rename_i hfew
  rw [ends_bind]
  have hlengths := @gives_encodedLength arguments recordBytes (by decide)
  refine ends_ofExcept (hlengths.mono ?_ fun e hlarge => ?_)
  swap
  · exact ⟨fun hfits => absurd hfits.2.1 (Nat.not_le.mpr hlarge), rfl⟩
  rintro length ⟨hlength, hmost⟩
  have hrecord : length = recordLength arguments := hlength
  rw [ends_bind, ends_get, ends_ite]
  split
  · rename_i hshort
    refine (ends_throw _).mpr ⟨_, rfl, fun hfits => ?_, rfl⟩
    exact absurd hfits.2.2 (Nat.not_le.mpr (hrecord ▸ hshort))
  rename_i hroom
  have hroom := Nat.le_of_not_lt hroom
  have hfits : Fits arguments output :=
    ⟨Nat.le_of_not_lt hfew, hrecord ▸ hmost, hrecord ▸ hroom⟩
  have hsplit : output = [] ++ (output.take length ++ output.drop length) :=
    (List.take_append_drop ..).symm
  have htake : (output.take length).length = length := by
    rw [List.length_take]
    omega
  -- the zeros of the header and of the arguments
  have hzeros : [] ++ List.replicate length 0 ++ output.drop length = List.replicate recordBytes 0 ++
      (List.replicate (arguments.map groupLength).sum 0 ++ output.drop length) := by
    rw [hlength, List.replicate_add, List.nil_append, List.append_assoc]
  rw [ends_bind]
  nth_rewrite 1 [hsplit]
  refine ends_copy_append rfl (by omega) (by rw [List.length_replicate, htake]) ?_
  rw [hzeros, ends_bind]
  refine (ends_writeHeader request _ hmost _).mono ?_ fun _ _ h => ?_
  swap
  · obtain ⟨-, -, hfalse⟩ := h
    exact hfalse.elim
  rintro _ _ rfl
  have hfront : ((request.header.reply length).bytes ++ toLeBytes (request.opcode ||| responseMask) ++
      toLe 4 arguments.length).length = recordBytes := by
    simp [Header.length_bytes, recordBytes]
  rw [ends_bind]
  refine (ends_writeArguments hfront (hlength ▸ hmost)).mono ?_ fun _ _ h => ?_
  swap
  · obtain ⟨-, -, hfalse⟩ := h
    exact hfalse.elim
  rintro _ _ rfl
  have hwritten : ((request.header.reply length).bytes ++ toLeBytes (request.opcode ||| responseMask) ++
      toLe 4 arguments.length ++ argumentBytes arguments).length = length := by
    rw [List.length_append, hfront, length_argumentBytes, hlength]
  rw [← List.append_assoc]
  refine (ends_pure _).mpr ⟨hfits, hrecord, ?_, List.drop_left' hwritten, ?_⟩
  · rw [List.take_left' hwritten]
    exact ⟨hsequence, _, groups_argumentBytes (hrecord ▸ hmost), rfl⟩
  · rw [List.length_append, hwritten, List.length_drop]
    omega

end Encode

/-- **The codec.** A byte string is accepted exactly when it is a record of the modem, as what it
spells; a response is written exactly when it fits, as a record, and leaves the rest of the buffer
alone; what is refused leaves all of the buffer alone. There is no panic. -/
theorem record_codec :
    (∀ input,
      Request.parse input ≠ .error .panic ∧
      ∀ request, Request.parse input = .ok request ↔ Accepted request input) ∧
    ∀ input request, Request.parse input = .ok request → ∀ arguments output,
      (Fits arguments output ∧ ∃ n output',
        encodeResponse request arguments output = .ok n output' ∧
        n = recordLength arguments ∧
        IsRecord AllZero
          { request.header with data1 := UInt32.ofNat n, channel := txChannel }
          (request.opcode ||| responseMask) arguments (output'.take n) ∧
        output'.drop n = output.drop n ∧ output'.length = output.length) ∨
      (¬ Fits arguments output ∧ ∃ error,
        encodeResponse request arguments output = .error (.error error) output) := by
  refine ⟨fun input => ⟨(gives_parse input).ne_panic, fun request => parse_eq_ok_iff⟩, ?_⟩
  intro input request hparse arguments output
  have hsequence := (parse_eq_ok_iff.mp hparse).record.sequence
  have hends := ends_encodeResponse request hsequence arguments output
  cases hrun : encodeResponse request arguments output with
  | ok n output' =>
      obtain ⟨hfits, hn, hrecord, hrest, hlength⟩ := hends.of_ok hrun
      exact .inl ⟨hfits, n, output', rfl, hn, hrecord, hrest, hlength⟩
  | error stop output' =>
      obtain ⟨error, rfl, hfits, rfl⟩ := hends.of_error hrun
      exact .inr ⟨hfits, error, rfl⟩

/-- A request without arguments. -/
def plainRecord : Bytes :=
  [0x78, 0x56, 0x34, 0x12, 0xef, 0xcd, 0xab, 0x89, 0x20, 0, 0x34, 0x92, 2, 0, 0, 0, 0x0f, 0x40, 0, 0,
    0, 0, 0, 0]

def plainRequest : Request :=
  ⟨⟨0x12345678, 0x89abcdef, 32, 0x1234, true, 2⟩, 0x400f, []⟩

theorem record_codec_plain :
    Request.parse plainRecord = .ok plainRequest ∧
      ∃ output', encodeResponse plainRequest [[97, 98, 99]] (List.replicate 40 0xa5) =
        .ok 32 output' ∧ output'.drop 32 = List.replicate 8 0xa5 := by
  have hparse : Request.parse plainRecord = .ok plainRequest := by decide
  refine ⟨hparse, ?_⟩
  rcases record_codec.2 plainRecord plainRequest hparse [[97, 98, 99]] (List.replicate 40 0xa5) with
    ⟨-, n, output', hrun, hn, -, hrest, -⟩ | ⟨hfits, -⟩
  · obtain rfl : n = 32 := hn
    exact ⟨output', hrun, hrest⟩
  · exact (hfits ⟨by decide, by decide, by decide⟩).elim

end Mindone.Rpc
