import ModbusProtocol.Pdu.Lemmas.Grammar
import ModbusProtocol.Rtu.Impl.Frame
import ModbusProtocol.Rtu.Lemmas.Crc
import ModbusProtocol.Tcp.Impl.Frame

/-!
This module contains the comparison of the two request parsers with the dispatch: whether they find in a
request what its callback is handed.
-/

open Modbus

variable {σ : Type}

namespace Pdu

-- The write callbacks are not told the function code.
def Call.functionCode : Call → Option UInt8
  | .readRegisters functionCode _ _ | .readBits functionCode _ _ => some functionCode
  | .writeRegisters _ _ _ | .writeBits _ _ _ => none

def Call.addr : Call → UInt16
  | .readRegisters _ addr _ | .readBits _ addr _ | .writeRegisters addr _ _ | .writeBits addr _ _ => addr

def Call.qty : Call → UInt16
  | .readRegisters _ _ qty | .readBits _ _ qty | .writeRegisters _ qty _ | .writeBits _ qty _ => qty

-- A parser has found what `call` is handed for a request with the function code `fc`.
structure Call.Matches (call : Call) (fc : UInt8) (parsed : Parsed) : Prop where
  functionCode : parsed.functionCode = fc ∧ ∀ fc' ∈ call.functionCode, parsed.functionCode = fc'
  address : parsed.address = call.addr
  quantity : parsed.quantity = call.qty

theorem addrOf_header_append (fc : UInt8) (addr qty : UInt16) (extra : List UInt8)
    : addrOf (header fc addr qty ++ extra) = addr := by
  exact u16Of_u16Bytes addr

theorem qtyOf_header_append (fc : UInt8) (addr qty : UInt16) (extra : List UInt8)
    : qtyOf (header fc addr qty ++ extra) = qty := by
  exact u16Of_u16Bytes qty

-- What both parsers read from a request with this PDU.
def parsedOf (pdu : List UInt8) : Parsed :=
  if fcOf pdu = funcWriteSingleRegister then
    ⟨fcOf pdu, addrOf pdu, 1⟩
  else
    ⟨fcOf pdu, addrOf pdu, qtyOf pdu⟩

theorem parsedOf_header (fc : UInt8) (addr qty : UInt16) (extra : List UInt8)
    : parsedOf (header fc addr qty ++ extra)
        =
      if fc = funcWriteSingleRegister then ⟨fc, addr, 1⟩ else ⟨fc, addr, qty⟩ := by
  unfold parsedOf
  rw [fcOf_header_append, addrOf_header_append, qtyOf_header_append]

-- The value for a single coil is taken for a quantity, and neither value there is can be one.
theorem Requests.matches_iff {pdu : List UInt8} {call : Call} (h : Requests pdu call)
    : call.Matches (fcOf pdu) (parsedOf pdu) ↔ fcOf pdu ≠ funcWriteSingleCoil := by
  cases h with
  | readBits fc addr qty extra hfc =>
    rw [parsedOf_header, fcOf_header_append]
    rcases hfc with rfl | rfl
    . exact ⟨fun _ => by decide, fun _ => ⟨⟨rfl, by simp [Call.functionCode]⟩, rfl, rfl⟩⟩
    . exact ⟨fun _ => by decide, fun _ => ⟨⟨rfl, by simp [Call.functionCode]⟩, rfl, rfl⟩⟩
  | readRegisters fc addr qty extra hfc =>
    rw [parsedOf_header, fcOf_header_append]
    rcases hfc with rfl | rfl
    . exact ⟨fun _ => by decide, fun _ => ⟨⟨rfl, by simp [Call.functionCode]⟩, rfl, rfl⟩⟩
    . exact ⟨fun _ => by decide, fun _ => ⟨⟨rfl, by simp [Call.functionCode]⟩, rfl, rfl⟩⟩
  | coilOn addr extra =>
    rw [parsedOf_header, fcOf_header_append]
    constructor
    . intro hmatches
      have hqty : (0xFF00 : UInt16) = 1 := hmatches.quantity
      contradiction
    . intro hne
      contradiction
  | coilOff addr extra =>
    rw [parsedOf_header, fcOf_header_append]
    constructor
    . intro hmatches
      have hqty : (0 : UInt16) = 1 := hmatches.quantity
      contradiction
    . intro hne
      contradiction
  | register addr value extra =>
    rw [parsedOf_header, fcOf_header_append]
    exact ⟨fun _ => by decide, fun _ => ⟨⟨rfl, by simp [Call.functionCode]⟩, rfl, rfl⟩⟩
  | coils addr qty byteCount payload hlen hcount =>
    rw [parsedOf_header, fcOf_header_append]
    exact ⟨fun _ => by decide, fun _ => ⟨⟨rfl, by simp [Call.functionCode]⟩, rfl, rfl⟩⟩
  | registers addr qty byteCount data hlen hcount =>
    rw [parsedOf_header, fcOf_header_append]
    exact ⟨fun _ => by decide, fun _ => ⟨⟨rfl, by simp [Call.functionCode]⟩, rfl, rfl⟩⟩

theorem handleRequest_called {h : Handlers σ} {locals : Locals} {req resp : Mem UInt8} {reqLen : Nat}
    {s : σ} {call : Call} (hcall : call ∈ (handleRequest h locals req reqLen resp s).calls)
    : 5 ≤ reqLen ∧ Requests (req.slice 0 reqLen) call := by
  have hlen : 5 ≤ reqLen := by
    unfold handleRequest at hcall
    dsimp only at hcall
    split at hcall
    . exact absurd hcall List.not_mem_nil
    split at hcall
    . exact absurd hcall List.not_mem_nil
    . next hlen =>
      change ¬reqLen < 5 at hlen
      omega
  rw [handleRequest_eq_respond _ _ _ _ _ _ (by omega)] at hcall
  exact ⟨hlen, (respond_called hcall).1⟩

end Pdu

namespace Rtu.Frame

theorem parseRequest_eq (request : Mem UInt8) {length : Nat} (hlen : 8 ≤ length)
    (hcrc : validateCrc request length = true)
    : parseRequest request length = some (Pdu.parsedOf ((request.shift 1).slice 0 (length - 3))) := by
  unfold parseRequest Pdu.parsedOf
  rw [Pdu.fcOf_slice _ _ (by omega), Pdu.addrOf_slice _ _ (by omega), Pdu.qtyOf_slice _ _ (by omega)]
  rw [if_neg (by simp; omega), if_neg (by simp [hcrc])]
  dsimp only
  split
  . next hfc =>
    rw [if_pos (by exact hfc)]
    rfl
  . next hfc =>
    rw [if_neg (by exact hfc)]
    rfl

end Rtu.Frame

namespace Tcp.Frame

-- A frame with the length its header gives it, which is one the server takes.
def Complete (request : Mem UInt8) (length : Nat) : Prop :=
  let mbapLen := (Pdu.u16Of (request 4) (request 5)).toNat
  request 2 = 0 ∧ request 3 = 0 ∧ 2 ≤ mbapLen ∧ mbapLen ≤ 254 ∧ length = 6 + mbapLen

instance (request : Mem UInt8) (length : Nat) : Decidable (Complete request length) := by
  unfold Complete
  infer_instance

theorem parseRequest_eq {request : Mem UInt8} {length : Nat} (hlen : 12 ≤ length)
    (h : Complete request length)
    : parseRequest request length = some (Pdu.parsedOf ((request.shift 7).slice 0 (length - 7))) := by
  obtain ⟨-, -, hmin, hmax, htotal⟩ := h
  have hmbap : ((request 4).toUInt16 <<< 8) ||| (request 5).toUInt16 = Pdu.u16Of (request 4) (request 5) := by
    rfl
  unfold parseRequest Pdu.parsedOf
  rw [Pdu.fcOf_slice _ _ (by omega), Pdu.addrOf_slice _ _ (by omega), Pdu.qtyOf_slice _ _ (by omega)]
  dsimp only [mbapPrefixLen, tcpMaxAduLength] at *
  rw [hmbap]
  generalize Pdu.u16Of (request 4) (request 5) = mbapLen at hmin hmax htotal
  have hsmall : ¬mbapLen < 6 := by
    rw [UInt16.lt_iff_toNat_lt]
    show ¬mbapLen.toNat < 6
    omega
  have hlarge : ¬mbapLen > UInt16.ofNat (260 - 6) := by
    rw [gt_iff_lt, UInt16.lt_iff_toNat_lt]
    show ¬254 < mbapLen.toNat
    omega
  rw [if_neg (by omega), if_neg hsmall, if_neg hlarge, if_neg (by omega)]
  split
  . next hfc =>
    rw [if_pos (by exact hfc)]
    rfl
  . next hfc =>
    rw [if_neg (by exact hfc)]
    rfl

end Tcp.Frame

-- The parsers find what the callback is handed unless the request writes a single coil.
theorem parsers_agree_iff (h : Pdu.Handlers σ) (locals : Pdu.Locals) (resp : Mem UInt8) (s : σ)
    : (∀ request length call, Rtu.validateCrc request length = true →
        call ∈ (Pdu.handleRequest h locals (request.shift 1) (length - 3) resp s).calls →
        ((∃ parsed, Rtu.Frame.parseRequest request length = some parsed ∧
          call.Matches (request 1) parsed) ↔ request 1 ≠ funcWriteSingleCoil)) ∧
      (∀ request length call, Tcp.Frame.Complete request length →
        call ∈ (Pdu.handleRequest h locals (request.shift 7) (length - 7) resp s).calls →
        ((∃ parsed, Tcp.Frame.parseRequest request length = some parsed ∧
          call.Matches (request 7) parsed) ↔ request 7 ≠ funcWriteSingleCoil)) := by
  constructor
  . intro request length call hcrc hcall
    obtain ⟨hlen, hrequests⟩ := Pdu.handleRequest_called hcall
    have hmatches := hrequests.matches_iff
    rw [Pdu.fcOf_slice _ _ (by omega)] at hmatches
    rw [Rtu.Frame.parseRequest_eq request (by omega) hcrc]
    simpa using hmatches
  . intro request length call hcomplete hcall
    obtain ⟨hlen, hrequests⟩ := Pdu.handleRequest_called hcall
    have hmatches := hrequests.matches_iff
    rw [Pdu.fcOf_slice _ _ (by omega)] at hmatches
    rw [Tcp.Frame.parseRequest_eq (by omega) hcomplete]
    simpa using hmatches

-- The request for coil 0 to be switched on: the callback is handed one coil, the parsers find 0xFF00.
theorem coil_parsed_as_quantity
    : let rtu := Pdu.sampleRequest (Rtu.withCrc [1, 5, 0, 0, 0xFF, 0])
      let tcp := Pdu.sampleRequest [0, 1, 0, 0, 0, 6, 1, 5, 0, 0, 0xFF, 0]
      Rtu.validateCrc rtu 8 = true ∧ Tcp.Frame.Complete tcp 12 ∧
        (Pdu.handleRequest Pdu.sampleHandlers Pdu.sampleLocals (rtu.shift 1) (8 - 3) (fun _ => 0)
          ()).calls = [.writeBits 0 1 [1]] ∧
        (Pdu.handleRequest Pdu.sampleHandlers Pdu.sampleLocals (tcp.shift 7) (12 - 7) (fun _ => 0)
          ()).calls = [.writeBits 0 1 [1]] ∧
        Rtu.Frame.parseRequest rtu 8 = some ⟨5, 0, 0xFF00⟩ ∧
        Tcp.Frame.parseRequest tcp 12 = some ⟨5, 0, 0xFF00⟩ := by
  intro rtu tcp
  decide +kernel

theorem register_parsed
    : ∃ parsed, Rtu.Frame.parseRequest (Pdu.sampleRequest (Rtu.withCrc [1, 3, 0, 0, 0, 1])) 8
        = some parsed ∧ (Pdu.Call.readRegisters 3 0 1).Matches 3 parsed := by
  have hagree := (parsers_agree_iff Pdu.sampleHandlers Pdu.sampleLocals (fun _ => 0) ()).1
    (Pdu.sampleRequest (Rtu.withCrc [1, 3, 0, 0, 0, 1])) 8 (.readRegisters 3 0 1) (by decide +kernel)
    (by decide +kernel)
  exact hagree.mpr (by decide +kernel)
