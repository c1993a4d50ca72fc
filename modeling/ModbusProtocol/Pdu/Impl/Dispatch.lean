import ModbusProtocol.Pdu.Impl.Codec

/-!
This module contains the server side dispatch of `modbus_pdu.c`.

The application behind the callbacks has a state of type `σ`, which stands for the `userdata` and for
everything a callback can reach through it. A read callback is handed its output buffer as the
server leaves it and returns the buffer as it leaves it. `Locals` holds the indeterminate contents
of the local arrays that a handler declares. The calls a dispatch makes are recorded in order.
-/

open Modbus

namespace Pdu

structure ReadReturn (α σ : Type) where
  rc : Int
  out : Mem α
  state : σ

structure WriteReturn (σ : Type) where
  rc : Int
  state : σ

structure Handlers (σ : Type) where
  readRegisters : Option (UInt8 → UInt16 → UInt16 → Mem UInt16 → σ → ReadReturn UInt16 σ)
  writeRegisters : Option (UInt16 → UInt16 → List UInt16 → σ → WriteReturn σ)
  readBits : Option (UInt8 → UInt16 → UInt16 → Mem UInt8 → σ → ReadReturn UInt8 σ)
  writeBits : Option (UInt16 → UInt16 → List UInt8 → σ → WriteReturn σ)

inductive Call where
  | readRegisters (functionCode : UInt8) (addr qty : UInt16)
  | writeRegisters (addr qty : UInt16) (data : List UInt16)
  | readBits (functionCode : UInt8) (addr qty : UInt16)
  | writeBits (addr qty : UInt16) (bits : List UInt8)
  deriving DecidableEq, Repr

structure Locals where
  data : Mem UInt16
  bits : Mem UInt8

structure Outcome (σ : Type) where
  resp : Mem UInt8
  len : Nat
  state : σ
  calls : List Call

def Outcome.of {σ : Type} (resp : Mem UInt8 × Nat) (s : σ) (calls : List Call) : Outcome σ :=
  ⟨resp.1, resp.2, s, calls⟩

variable {σ : Type}

def handleReadRegisters (h : Handlers σ) (locals : Locals) (fc : UInt8) (addr qty : UInt16)
    (resp : Mem UInt8) (s : σ) : Outcome σ :=
  match h.readRegisters with
  | none => .of (buildException resp fc exIllegalFunction) s []
  | some readRegisters =>
    if qty = 0 ∨ qty.toNat > maxReadRegisters then
      .of (buildException resp fc exIllegalDataValue) s []
    else if rangeOverflows addr qty then
      .of (buildException resp fc exIllegalDataAddress) s []
    else
      let ret := readRegisters fc addr qty locals.data s
      let calls := [.readRegisters fc addr qty]
      if ret.rc ≠ 0 then
        .of (buildException resp fc (exceptionFromCallbackRc ret.rc)) ret.state calls
      else
        let resp := resp.set offsetFc fc
        let resp := resp.set offsetReadByteCount (UInt8.ofNat (qty.toNat * 2))
        let resp := resp.splice offsetReadData
          (putRegisters (resp.shift offsetReadData) qty ret.out)
        .of (resp, offsetReadData + qty.toNat * 2) ret.state calls

def handleReadBits (h : Handlers σ) (locals : Locals) (fc : UInt8) (addr qty : UInt16)
    (resp : Mem UInt8) (s : σ) : Outcome σ :=
  match h.readBits with
  | none => .of (buildException resp fc exIllegalFunction) s []
  | some readBits =>
    if qty = 0 ∨ qty.toNat > maxReadBits then
      .of (buildException resp fc exIllegalDataValue) s []
    else if rangeOverflows addr qty then
      .of (buildException resp fc exIllegalDataAddress) s []
    else
      let bits := locals.bits.write 0 (List.replicate qty.toNat 0)
      let ret := readBits fc addr qty bits s
      let calls := [.readBits fc addr qty]
      if ret.rc ≠ 0 then
        .of (buildException resp fc (exceptionFromCallbackRc ret.rc)) ret.state calls
      else
        let byteCount := bitByteCount qty
        let resp := resp.set offsetFc fc
        let resp := resp.set offsetReadByteCount (UInt8.ofNat byteCount)
        let resp := resp.splice offsetReadData (packBits ret.out qty (resp.shift offsetReadData))
        .of (resp, offsetReadData + byteCount) ret.state calls

def handleWriteSingleCoil (h : Handlers σ) (req resp : Mem UInt8) (s : σ) : Outcome σ :=
  let fc := req offsetFc
  let value := getU16 (req.shift offsetQty)
  match h.writeBits with
  | none => .of (buildException resp fc exIllegalFunction) s []
  | some writeBits =>
    if value ≠ coilOn ∧ value ≠ coilOff then
      .of (buildException resp fc exIllegalDataValue) s []
    else
      let bit := if value = coilOn then 1 else 0
      let addr := getU16 (req.shift offsetAddr)
      let ret := writeBits addr 1 [bit] s
      let calls := [.writeBits addr 1 [bit]]
      if ret.rc ≠ 0 then
        .of (buildException resp fc (exceptionFromCallbackRc ret.rc)) ret.state calls
      else
        .of (buildWriteEcho req resp) ret.state calls

def handleWriteSingleRegister (h : Handlers σ) (req resp : Mem UInt8) (s : σ) : Outcome σ :=
  let fc := req offsetFc
  let value := getU16 (req.shift offsetQty)
  match h.writeRegisters with
  | none => .of (buildException resp fc exIllegalFunction) s []
  | some writeRegisters =>
    let addr := getU16 (req.shift offsetAddr)
    let ret := writeRegisters addr 1 [value] s
    let calls := [.writeRegisters addr 1 [value]]
    if ret.rc ≠ 0 then
      .of (buildException resp fc (exceptionFromCallbackRc ret.rc)) ret.state calls
    else
      .of (buildWriteEcho req resp) ret.state calls

-- The part of `handle_write_multiple` behind the check that the callback is there.
def checkWriteMultiple (req : Mem UInt8) (reqLen : Nat) : Option UInt8 :=
  let isCoils := req offsetFc = funcWriteMultipleCoils
  let qty := getU16 (req.shift offsetQty)
  let maxQty := if isCoils then maxWriteBits else maxWriteRegisters
  let byteCount := if isCoils then bitByteCount qty else qty.toNat * 2
  if reqLen ≤ offsetByteCount ∨ qty = 0 ∨ qty.toNat > maxQty then
    some exIllegalDataValue
  else if req offsetByteCount ≠ UInt8.ofNat byteCount ∨ reqLen ≠ offsetWriteData + byteCount then
    some exIllegalDataValue
  else if rangeOverflows (getU16 (req.shift offsetAddr)) qty then
    some exIllegalDataAddress
  else
    none

def handleWriteMultiple (h : Handlers σ) (locals : Locals) (req : Mem UInt8) (reqLen : Nat)
    (resp : Mem UInt8) (s : σ) : Outcome σ :=
  let fc := req offsetFc
  let qty := getU16 (req.shift offsetQty)
  let addr := getU16 (req.shift offsetAddr)
  let payload := req.shift offsetWriteData
  if fc = funcWriteMultipleCoils then
    match h.writeBits with
    | none => .of (buildException resp fc exIllegalFunction) s []
    | some writeBits =>
      match checkWriteMultiple req reqLen with
      | some ex => .of (buildException resp fc ex) s []
      | none =>
        let bits := (unpackBits payload qty locals.bits).slice 0 qty.toNat
        let ret := writeBits addr qty bits s
        let calls := [.writeBits addr qty bits]
        if ret.rc ≠ 0 then
          .of (buildException resp fc (exceptionFromCallbackRc ret.rc)) ret.state calls
        else
          .of (buildWriteEcho req resp) ret.state calls
  else
    match h.writeRegisters with
    | none => .of (buildException resp fc exIllegalFunction) s []
    | some writeRegisters =>
      match checkWriteMultiple req reqLen with
      | some ex => .of (buildException resp fc ex) s []
      | none =>
        let data := (List.range qty.toNat).foldl (fun data i =>
          data.set i (getU16 (payload.shift (i * 2)))) locals.data
        let data := data.slice 0 qty.toNat
        let ret := writeRegisters addr qty data s
        let calls := [.writeRegisters addr qty data]
        if ret.rc ≠ 0 then
          .of (buildException resp fc (exceptionFromCallbackRc ret.rc)) ret.state calls
        else
          .of (buildWriteEcho req resp) ret.state calls

def handleRequest (h : Handlers σ) (locals : Locals) (req : Mem UInt8) (reqLen : Nat)
    (resp : Mem UInt8) (s : σ) : Outcome σ :=
  let fc := req offsetFc
  if !isRead fc && !isWrite fc then
    .of (buildException resp fc exIllegalFunction) s []
  else if reqLen < fixedReqLen then
    .of (buildException resp fc exIllegalDataValue) s []
  else
    let addr := getU16 (req.shift offsetAddr)
    let qty := getU16 (req.shift offsetQty)
    if fc = funcReadCoils ∨ fc = funcReadDiscreteInputs then
      handleReadBits h locals fc addr qty resp s
    else if fc = funcReadHoldingRegisters ∨ fc = funcReadInputRegisters then
      handleReadRegisters h locals fc addr qty resp s
    else if fc = funcWriteSingleCoil then
      handleWriteSingleCoil h req resp s
    else if fc = funcWriteSingleRegister then
      handleWriteSingleRegister h req resp s
    else
      handleWriteMultiple h locals req reqLen resp s

end Pdu
