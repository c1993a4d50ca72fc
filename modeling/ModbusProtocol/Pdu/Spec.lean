import ModbusProtocol.Pdu.Impl.Dispatch
import ModbusProtocol.Pdu.Lemmas.Codec

/-!
This module contains the dispatch as a function of the bytes of the request: which call a request
asks for, what calling the application gives, and the bytes of the reply. No buffer is left here,
`Lemmas/Dispatch.lean` shows that the dispatch of `modbus_pdu.c` stores exactly these bytes.
-/

open Modbus

namespace Pdu

def fcOf (pdu : List UInt8) : UInt8 :=
  pdu.getD 0 0

def addrOf (pdu : List UInt8) : UInt16 :=
  u16Of (pdu.getD 1 0) (pdu.getD 2 0)

def qtyOf (pdu : List UInt8) : UInt16 :=
  u16Of (pdu.getD 3 0) (pdu.getD 4 0)

def payloadOf (pdu : List UInt8) : List UInt8 :=
  pdu.drop 6

def isBitFc (fc : UInt8) : Bool :=
  fc = funcReadCoils ∨ fc = funcReadDiscreteInputs ∨ fc = funcWriteSingleCoil ∨
    fc = funcWriteMultipleCoils

-- The number of data bytes that carry `qty` bits or registers.
def dataLen (fc : UInt8) (qty : UInt16) : Nat :=
  if isBitFc fc then bitByteCount qty else qty.toNat * 2

def checkRange (addr qty : UInt16) (limit : Nat) (call : Call) : Except UInt8 Call :=
  if qty = 0 ∨ qty.toNat > limit then
    .error exIllegalDataValue
  else if rangeOverflows addr qty then
    .error exIllegalDataAddress
  else
    .ok call

def checkLayout (pdu : List UInt8) (limit : Nat) (call : Call) : Except UInt8 Call :=
  if pdu.length ≤ 5 ∨ qtyOf pdu = 0 ∨ (qtyOf pdu).toNat > limit then
    .error exIllegalDataValue
  else if pdu.getD 5 0 ≠ UInt8.ofNat (dataLen (fcOf pdu) (qtyOf pdu)) ∨
      pdu.length ≠ 6 + dataLen (fcOf pdu) (qtyOf pdu) then
    .error exIllegalDataValue
  else if rangeOverflows (addrOf pdu) (qtyOf pdu) then
    .error exIllegalDataAddress
  else
    .ok call

def requestedCall (pdu : List UInt8) : Except UInt8 Call :=
  let fc := fcOf pdu
  let addr := addrOf pdu
  let qty := qtyOf pdu
  if fc = funcReadCoils ∨ fc = funcReadDiscreteInputs then
    checkRange addr qty maxReadBits (.readBits fc addr qty)
  else if fc = funcReadHoldingRegisters ∨ fc = funcReadInputRegisters then
    checkRange addr qty maxReadRegisters (.readRegisters fc addr qty)
  else if fc = funcWriteSingleCoil then
    if qty ≠ coilOn ∧ qty ≠ coilOff then
      .error exIllegalDataValue
    else
      .ok (.writeBits addr 1 [if qty = coilOn then 1 else 0])
  else if fc = funcWriteSingleRegister then
    .ok (.writeRegisters addr 1 [qty])
  else if fc = funcWriteMultipleCoils then
    checkLayout pdu maxWriteBits
      (.writeBits addr qty ((Bits.unpack (payloadOf pdu) qty.toNat).map Bool.toUInt8))
  else
    checkLayout pdu maxWriteRegisters (.writeRegisters addr qty (registersOf (payloadOf pdu)))

structure Reply (σ : Type) where
  bytes : List UInt8
  state : σ
  calls : List Call

variable {σ : Type}

def Reply.exception (fc code : UInt8) (s : σ) (calls : List Call) : Reply σ :=
  ⟨[fc ||| exceptionFlag, code], s, calls⟩

-- The reply once a callback has returned `rc`: `success` stands for the normal response.
def Reply.returned (fc : UInt8) (rc : Int) (success : List UInt8) (s : σ) (calls : List Call)
    : Reply σ :=
  if rc ≠ 0 then
    .exception fc (exceptionFromCallbackRc rc) s calls
  else
    ⟨success, s, calls⟩

def Handlers.present (h : Handlers σ) (fc : UInt8) : Bool :=
  if fc = funcReadCoils ∨ fc = funcReadDiscreteInputs then
    h.readBits.isSome
  else if fc = funcReadHoldingRegisters ∨ fc = funcReadInputRegisters then
    h.readRegisters.isSome
  else if fc = funcWriteSingleCoil ∨ fc = funcWriteMultipleCoils then
    h.writeBits.isSome
  else
    h.writeRegisters.isSome

/--
What calling the application directly gives: the return code, the data it hands out, as the bytes
that carry them, and the state it leaves.
-/
structure Answer (σ : Type) where
  rc : Int
  data : List UInt8
  state : σ

def Handlers.invoke (h : Handlers σ) (locals : Locals) (call : Call) (s : σ) : Option (Answer σ) :=
  match call with
  | .readRegisters fc addr qty =>
    h.readRegisters.map fun readRegisters =>
      let ret := readRegisters fc addr qty locals.data s
      ⟨ret.rc, (ret.out.slice 0 qty.toNat).flatMap u16Bytes, ret.state⟩
  | .readBits fc addr qty =>
    h.readBits.map fun readBits =>
      let ret := readBits fc addr qty (locals.bits.write 0 (List.replicate qty.toNat 0)) s
      ⟨ret.rc, Bits.pack (boolsOf (ret.out.slice 0 qty.toNat)), ret.state⟩
  | .writeRegisters addr qty data =>
    h.writeRegisters.map fun writeRegisters =>
      let ret := writeRegisters addr qty data s
      ⟨ret.rc, [], ret.state⟩
  | .writeBits addr qty bits =>
    h.writeBits.map fun writeBits =>
      let ret := writeBits addr qty bits s
      ⟨ret.rc, [], ret.state⟩

-- A read callback looks at nothing in its output buffer that has no value yet, and where it returns 0 the
-- entries it was asked for have one.
structure Handlers.Fills (h : Handlers σ) : Prop where
  registers : ∀ readRegisters ∈ h.readRegisters, ∀ fc addr qty out out' s,
    let ret := readRegisters fc addr qty out s
    let ret' := readRegisters fc addr qty out' s
    ret.rc = ret'.rc ∧ ret.state = ret'.state ∧
      (ret.rc = 0 → ret.out.slice 0 qty.toNat = ret'.out.slice 0 qty.toNat)
  -- the server has set these entries to zero
  bits : ∀ readBits ∈ h.readBits, ∀ fc addr qty out out' s,
    out.slice 0 qty.toNat = out'.slice 0 qty.toNat →
    let ret := readBits fc addr qty out s
    let ret' := readBits fc addr qty out' s
    ret.rc = ret'.rc ∧ ret.state = ret'.state ∧
      (ret.rc = 0 → ret.out.slice 0 qty.toNat = ret'.out.slice 0 qty.toNat)

-- FC + byte count + data for reads, the echo of the first five request bytes for writes.
def successResponse (pdu data : List UInt8) : List UInt8 :=
  if isRead (fcOf pdu) then
    fcOf pdu :: UInt8.ofNat data.length :: data
  else
    pdu.take 5

def respond (h : Handlers σ) (locals : Locals) (pdu : List UInt8) (s : σ) : Reply σ :=
  let fc := fcOf pdu
  if !isRead fc && !isWrite fc then
    .exception fc exIllegalFunction s []
  else if pdu.length < 5 then
    .exception fc exIllegalDataValue s []
  else if !h.present fc then
    .exception fc exIllegalFunction s []
  else
    match requestedCall pdu with
    | .error code => .exception fc code s []
    | .ok call =>
      match h.invoke locals call s with
      | none => .exception fc exIllegalFunction s []
      | some ans => .returned fc ans.rc (successResponse pdu ans.data) ans.state [call]

def Reply.store (r : Reply σ) (resp : Mem UInt8) : Outcome σ :=
  ⟨resp.write 0 r.bytes, r.bytes.length, r.state, r.calls⟩

end Pdu
