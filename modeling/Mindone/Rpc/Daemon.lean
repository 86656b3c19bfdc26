import Mindone.Rpc.WireCodec

/-!
# Mindone.Rpc.Daemon

One turn of `mindone_rpcd` (`modem/ccci-userspace/rpcd/ccci_rpcd.c`): the record it reads, the
property it looks up, and the bytes it writes back. It reads and writes the same records as the codec
of `Mindone.Rpc.Wire`, but takes its bytes **without the lengths in front of the arguments**, and
answers with a header of zeros; so **none of its answers is a response** (`rpcd_speaks_never`).
-/

namespace Mindone.Rpc

open Lib Lib.Checked

/-! ### The source -/

def ipcRpcQueryApSysProperty : UInt32 := 0x400f
def ipcRpcSarTableIdxQueryOp : UInt32 := 0x4010
def ipcRpcAmmsDrdiControl : UInt32 := 0x4014
def ipcRpcSaveMdCapid : UInt32 := 0x4015

def rpcMaxBufSize : Nat := 2048
def fsNoOp : Int32 := -1
def fsNoFeature : Int32 := -3

/-- `PROPERTY_KEY_MAX`, the size of the buffer with its terminator. -/
def propertyKeyMax : Nat := 32

/-- `PROPERTY_VALUE_MAX`, the size of the buffer with its terminator. -/
def propertyValueMax : Nat := 92

/-- The calls outside of the daemon. -/
structure Platform where
  /-- The value that `property_get` leaves in the buffer. -/
  propertyGet : Bytes → Bytes
  propertyGet_lt : ∀ key, (propertyGet key).length < propertyValueMax
  /-- What `mtk_sar_table_id_get` leaves in `value`, which is zero before. -/
  sarTableId : Int32

/-- What a turn does. -/
structure Turn where
  lookups : List Bytes
  written : List Bytes
  deriving DecidableEq

/-- A word of `rpc_buffer`. -/
def field (input : Bytes) (offset : Nat) : UInt32 := fromLeBytes (sliceAt input offset 4)

/-- An `int32_t` as it lies in memory. -/
def resultBytes (value : Int32) : Bytes := toLeBytes value.toUInt32

/-- The bytes of a buffer up to the first terminator. -/
def cString (bytes : Bytes) : Bytes := bytes.takeWhile (· != 0)

def rpcSendResponse (opId paraNum : UInt32) (payload : Bytes) : List Bytes :=
  if recordBytes + payload.length > rpcMaxBufSize then []
  else [List.replicate 16 0 ++ toLeBytes (opId ||| responseMask) ++ toLeBytes paraNum ++ payload]

variable (platform : Platform)

def handleQueryApSysProperty (opId : UInt32) (buffer : Bytes) : Turn :=
  let keylen := if buffer.length < propertyKeyMax then buffer.length else propertyKeyMax - 1
  let key := cString (buffer.take keylen)
  ⟨[key], rpcSendResponse opId 1 (platform.propertyGet key ++ [0])⟩

def handleSarTableIdxQuery (opId : UInt32) : Turn :=
  ⟨[], rpcSendResponse opId 1 (resultBytes platform.sarTableId)⟩

def handleSaveMdCapid (opId : UInt32) : Turn := ⟨[], rpcSendResponse opId 0 []⟩

def handleAmmsDrdiControl (opId : UInt32) : Turn :=
  ⟨[], rpcSendResponse opId 1 (resultBytes fsNoFeature)⟩

/-- `rpc_dispatch`; the operations of `ccci_rpc_is_userspace_op` are those of the table. -/
def rpcDispatch (opId : UInt32) (buffer : Bytes) : Turn :=
  if opId = ipcRpcQueryApSysProperty then handleQueryApSysProperty platform opId buffer
  else if opId = ipcRpcSarTableIdxQueryOp then handleSarTableIdxQuery platform opId
  else if opId = ipcRpcAmmsDrdiControl then handleAmmsDrdiControl opId
  else if opId = ipcRpcSaveMdCapid then handleSaveMdCapid opId
  else ⟨[], rpcSendResponse opId 1 (resultBytes fsNoOp)⟩

/-- The body of the loop of `main`, for the bytes that were read. -/
def rpcdTurn (input : Bytes) : Turn :=
  if input.length < recordBytes then ⟨[], []⟩
  else rpcDispatch platform (field input 16) (input.drop recordBytes)

/-! ### What it should say -/

/-- The arguments that the handler of an operation answers with. -/
def answerArguments (turn : Turn) (opId : UInt32) : List Bytes :=
  if opId = ipcRpcQueryApSysProperty then turn.lookups.map fun key => platform.propertyGet key ++ [0]
  else if opId = ipcRpcSarTableIdxQueryOp then [resultBytes platform.sarTableId]
  else if opId = ipcRpcAmmsDrdiControl then [resultBytes fsNoFeature]
  else if opId = ipcRpcSaveMdCapid then []
  else [resultBytes fsNoOp]

/-- The bytes of a response. -/
def response (request : Request) (arguments : List Bytes) : Bytes :=
  match encodeResponse request arguments (List.replicate maxRecordBytes 0) with
  | .ok n output => output.take n
  | .error _ _ => []

/-- **The daemon speaks the wire format**: one response is written, with the arguments of the
handler, and the key that is looked up is the first argument. -/
def SpeaksWire (input : Bytes) (request : Request) : Prop :=
  let turn := rpcdTurn platform input
  turn.written = [response request (answerArguments platform turn request.opcode)] ∧
    (request.opcode = ipcRpcQueryApSysProperty →
      turn.lookups = [cString (request.arguments.headD [])])

/-! ### What it says -/

variable {platform} {input : Bytes} {request : Request}

/-- The bytes of all arguments, and nothing else, follow a header of zeros. -/
theorem rpcSendResponse_of_small {payload : Bytes} (h : payload.length ≤ propertyValueMax)
    (opId paraNum : UInt32) :
    rpcSendResponse opId paraNum payload =
      [List.replicate 16 0 ++ toLeBytes (opId ||| responseMask) ++ toLeBytes paraNum ++ payload] := by
  have hsmall : ¬ recordBytes + payload.length > rpcMaxBufSize := by
    simp only [propertyValueMax, recordBytes, rpcMaxBufSize] at *
    omega
  exact if_neg hsmall

/-- **Every turn writes one record**: zeros, the operation with the mask, the number of arguments
and the bare arguments. -/
theorem rpcdTurn_written (h : Request.parse input = .ok request) :
    let arguments := answerArguments platform (rpcdTurn platform input) request.opcode
    (rpcdTurn platform input).written =
      [List.replicate 16 0 ++ toLeBytes (request.opcode ||| responseMask) ++
        toLeBytes (UInt32.ofNat arguments.length) ++ arguments.flatten] := by
  have haccepted := parse_eq_ok_iff.mp h
  have hopcode : field input 16 = request.opcode := by
    obtain ⟨-, body, -, hspelled⟩ := haccepted.record
    rw [field, sliceAt, hspelled, List.append_assoc, List.append_assoc,
      List.drop_left' (Header.length_bytes _), List.take_left' (length_toLeBytes _),
      fromLeBytes_toLeBytes]
  unfold rpcdTurn
  rw [if_neg (Nat.not_lt.mpr haccepted.least), hopcode]
  have hresult : ∀ value, (resultBytes value).length ≤ propertyValueMax := by
    intro value
    simp [resultBytes, propertyValueMax]
  unfold rpcDispatch answerArguments
  split
  · have hvalue : ∀ key, (platform.propertyGet key ++ [0]).length ≤ propertyValueMax := by
      intro key
      have := platform.propertyGet_lt key
      rw [List.length_append, List.length_singleton]
      omega
    simp [handleQueryApSysProperty, rpcSendResponse_of_small (hvalue _)]
  split
  · simp [handleSarTableIdxQuery, rpcSendResponse_of_small (hresult _)]
  split
  · simp [handleAmmsDrdiControl, rpcSendResponse_of_small (hresult _)]
  split
  · simp [handleSaveMdCapid, rpcSendResponse_of_small]
  · simp [rpcSendResponse_of_small (hresult _)]

/-- A response is on the channel of the modem. -/
theorem response_channel (h : Request.parse input = .ok request) {arguments : List Bytes}
    (hne : response request arguments ≠ []) :
    field (response request arguments) 8 ≠ 0 := by
  unfold response at hne ⊢
  have hsequence := (parse_eq_ok_iff.mp h).record.sequence
  have hends := ends_encodeResponse request hsequence arguments (List.replicate maxRecordBytes 0)
  cases hrun : encodeResponse request arguments (List.replicate maxRecordBytes 0) with
  | error stop output => simp [hrun] at hne
  | ok n output =>
      obtain ⟨-, -, ⟨-, body, -, hspelled⟩, -⟩ := hends.of_ok hrun
      have hfield : field (output.take n) 8 =
          channelWord txChannel request.header.sequence request.header.asserted := by
        rw [field, sliceAt, hspelled]
        simp only [Header.bytes, Header.reply, List.append_assoc]
        rw [← List.append_assoc, List.drop_left' (by simp), List.take_left' (length_toLeBytes _),
          fromLeBytes_toLeBytes]
      dsimp only
      rw [hfield, ne_eq, ← UInt32.toNat_inj, toNat_channelWord _ hsequence, UInt32.toNat_zero]
      have hchannel : txChannel.toNat = 33 := rfl
      omega

/-- **No answer is a response**: the header of what is written has no channel. -/
theorem rpcd_speaks_never (platform : Platform) (input : Bytes) (request : Request)
    (h : Request.parse input = .ok request) : ¬ SpeaksWire platform input request := by
  rintro ⟨hwritten, -⟩
  rw [rpcdTurn_written h] at hwritten
  have hbytes := (List.cons.inj hwritten).1
  have hne : response request (answerArguments platform (rpcdTurn platform input) request.opcode) ≠ [] := by
    rw [← hbytes]
    simp
  have hchannel := response_channel h hne
  rw [← hbytes] at hchannel
  exact hchannel rfl

/-- A platform without properties. -/
def barePlatform : Platform := ⟨fun _ => [], fun _ => by decide, 0⟩

/-- `IPC_RPC_SAVE_MD_CAPID` with its two words. -/
def capidRecord : Bytes :=
  [0x78, 0x56, 0x34, 0x12, 0, 0, 0, 0, 0x20, 0, 0x34, 0x12, 1, 0, 0, 0, 0x15, 0x40, 0, 0, 2, 0, 0, 0,
    4, 0, 0, 0, 1, 0, 0, 0, 4, 0, 0, 0, 2, 0, 0, 0]

def capidRequest : Request :=
  ⟨⟨0x12345678, 0, 32, 0x1234, false, 1⟩, 0x4015, [[1, 0, 0, 0], [2, 0, 0, 0]]⟩

theorem rpcd_speaks_never_capid : ¬ SpeaksWire barePlatform capidRecord capidRequest :=
  rpcd_speaks_never barePlatform capidRecord capidRequest (by decide)

/-- The answer is a header of zeros, not that of a response. -/
theorem rpcd_answers_capid :
    Request.parse capidRecord = .ok capidRequest ∧
      answerArguments barePlatform (rpcdTurn barePlatform capidRecord) capidRequest.opcode = [] ∧
      (rpcdTurn barePlatform capidRecord).written =
        [[0, 0, 0, 0, 0, 0, 0, 0, 0, 0, 0, 0, 0, 0, 0, 0, 0x15, 0x40, 0xff, 0xff, 0, 0, 0, 0]] ∧
      response capidRequest [] =
        [0x78, 0x56, 0x34, 0x12, 24, 0, 0, 0, 33, 0, 0x34, 0x12, 1, 0, 0, 0, 0x15, 0x40, 0xff, 0xff,
          0, 0, 0, 0] ∧
      ¬ SpeaksWire barePlatform capidRecord capidRequest := by
  refine ⟨by decide, rfl, by decide +kernel, by decide +kernel, fun h => ?_⟩
  exact absurd h.1 (by decide +kernel)

end Mindone.Rpc
