import ModbusProtocol.Data.Object
import ModbusProtocol.Pdu.Impl.Dispatch

/-!
This module contains the dispatch of `modbus_pdu.c` once more, with every array access and every narrowing
to eight bits checked. The request is an array of its length, the response one of `maxPduLength` bytes that
have no values, and so are the local arrays of the handlers. A pointer into an array is an offset.

A register read callback that returns zero has set its `qty` entries. Every other callback may change what
it is handed in any way.
-/

open Modbus

namespace Pdu.Checked

structure Outcome (σ : Type) where
  resp : Object UInt8
  len : Nat
  state : σ
  calls : List Call

def getU16 (p : Object UInt8) (off : Nat) : Except Fault UInt16 := do
  let high ← p.load off
  let low ← p.load (off + 1)
  return (high.toUInt16 <<< 8) ||| low.toUInt16

def putU16 (p : Object UInt8) (off : Nat) (v : UInt16) : Except Fault (Object UInt8) := do
  let p ← p.store off (v >>> 8).toUInt8
  p.store (off + 1) (v &&& 0xFF).toUInt8

def packBits (values : Object UInt8) (qty : UInt16) (out : Object UInt8) (off : Nat)
    : Except Fault (Object UInt8) := do
  let out ← (List.range (bitByteCount qty)).foldlM (fun out j => out.store (off + j) 0) out
  (List.range qty.toNat).foldlM (fun out i => do
    let value ← values.load i
    if value ≠ 0 then
      let byte ← out.load (off + i / 8)
      out.store (off + i / 8) (byte ||| (1 <<< UInt8.ofNat (i % 8)))
    else
      return out) out

def unpackBits (packed : Object UInt8) (off : Nat) (qty : UInt16) (out : Object UInt8)
    : Except Fault (Object UInt8) :=
  (List.range qty.toNat).foldlM (fun out i => do
    let byte ← packed.load (off + i / 8)
    out.store i ((byte >>> UInt8.ofNat (i % 8)) &&& 1)) out

variable {σ : Type}

def buildException (resp : Object UInt8) (functionCode exceptionCode : UInt8) (s : σ)
    (calls : List Call) : Except Fault (Outcome σ) := do
  let resp ← resp.store 0 (functionCode ||| exceptionFlag)
  let resp ← resp.store 1 exceptionCode
  return ⟨resp, exceptionLen, s, calls⟩

def buildWriteEcho (req resp : Object UInt8) (s : σ) (calls : List Call)
    : Except Fault (Outcome σ) := do
  let resp ← (List.range writeResponseLen).foldlM (fun resp i => do
    let byte ← req.load i
    resp.store i byte) resp
  return ⟨resp, writeResponseLen, s, calls⟩

def handleReadRegisters (h : Handlers σ) (locals : Locals) (fc : UInt8) (addr qty : UInt16)
    (resp : Object UInt8) (s : σ) : Except Fault (Outcome σ) :=
  let data : Object UInt16 := .fresh maxReadRegisters
  match h.readRegisters with
  | none => buildException resp fc exIllegalFunction s []
  | some readRegisters =>
    if qty = 0 ∨ qty.toNat > maxReadRegisters then
      buildException resp fc exIllegalDataValue s []
    else if rangeOverflows addr qty then
      buildException resp fc exIllegalDataAddress s []
    else do
      data.lend qty.toNat
      let ret := readRegisters fc addr qty (data.view locals.data) s
      let calls := [.readRegisters fc addr qty]
      if ret.rc ≠ 0 then
        buildException resp fc (exceptionFromCallbackRc ret.rc) ret.state calls
      else
        let data := data.filled ret.out qty.toNat
        let resp ← resp.store offsetFc fc
        let byteCount ← Object.narrow (qty.toNat * 2)
        let resp ← resp.store offsetReadByteCount byteCount
        let resp ← (List.range qty.toNat).foldlM (fun resp i => do
          let value ← data.load i
          putU16 resp (offsetReadData + i * 2) value) resp
        return ⟨resp, offsetReadData + qty.toNat * 2, ret.state, calls⟩

def handleReadBits (h : Handlers σ) (locals : Locals) (fc : UInt8) (addr qty : UInt16)
    (resp : Object UInt8) (s : σ) : Except Fault (Outcome σ) :=
  let bits : Object UInt8 := .fresh maxReadBits
  match h.readBits with
  | none => buildException resp fc exIllegalFunction s []
  | some readBits =>
    if qty = 0 ∨ qty.toNat > maxReadBits then
      buildException resp fc exIllegalDataValue s []
    else if rangeOverflows addr qty then
      buildException resp fc exIllegalDataAddress s []
    else do
      let bits ← bits.memset 0 qty.toNat
      bits.lend qty.toNat
      let ret := readBits fc addr qty (bits.view locals.bits) s
      let calls := [.readBits fc addr qty]
      if ret.rc ≠ 0 then
        buildException resp fc (exceptionFromCallbackRc ret.rc) ret.state calls
      else
        let bits := bits.touched ret.out
        let byteCount := bitByteCount qty
        let resp ← resp.store offsetFc fc
        let count ← Object.narrow byteCount
        let resp ← resp.store offsetReadByteCount count
        let resp ← packBits bits qty resp offsetReadData
        return ⟨resp, offsetReadData + byteCount, ret.state, calls⟩

def handleWriteSingleCoil (h : Handlers σ) (req resp : Object UInt8) (s : σ)
    : Except Fault (Outcome σ) := do
  let fc ← req.load offsetFc
  let value ← getU16 req offsetQty
  match h.writeBits with
  | none => buildException resp fc exIllegalFunction s []
  | some writeBits =>
    if value ≠ coilOn ∧ value ≠ coilOff then
      buildException resp fc exIllegalDataValue s []
    else
      let bit := if value = coilOn then 1 else 0
      let addr ← getU16 req offsetAddr
      let ret := writeBits addr 1 [bit] s
      let calls := [.writeBits addr 1 [bit]]
      if ret.rc ≠ 0 then
        buildException resp fc (exceptionFromCallbackRc ret.rc) ret.state calls
      else
        buildWriteEcho req resp ret.state calls

def handleWriteSingleRegister (h : Handlers σ) (req resp : Object UInt8) (s : σ)
    : Except Fault (Outcome σ) := do
  let fc ← req.load offsetFc
  let value ← getU16 req offsetQty
  match h.writeRegisters with
  | none => buildException resp fc exIllegalFunction s []
  | some writeRegisters =>
    let addr ← getU16 req offsetAddr
    let ret := writeRegisters addr 1 [value] s
    let calls := [.writeRegisters addr 1 [value]]
    if ret.rc ≠ 0 then
      buildException resp fc (exceptionFromCallbackRc ret.rc) ret.state calls
    else
      buildWriteEcho req resp ret.state calls

-- The part of `handle_write_multiple` behind the check that the callback is there.
def checkWriteMultiple (req : Object UInt8) (reqLen : Nat) : Except Fault (Option UInt8) := do
  let fc ← req.load offsetFc
  let isCoils := fc = funcWriteMultipleCoils
  let qty ← getU16 req offsetQty
  let maxQty := if isCoils then maxWriteBits else maxWriteRegisters
  if reqLen ≤ offsetByteCount ∨ qty = 0 ∨ qty.toNat > maxQty then
    return some exIllegalDataValue
  else
    let byteCount := if isCoils then bitByteCount qty else qty.toNat * 2
    let received ← req.load offsetByteCount
    let count ← Object.narrow byteCount
    if received ≠ count ∨ reqLen ≠ offsetWriteData + byteCount then
      return some exIllegalDataValue
    else
      let addr ← getU16 req offsetAddr
      if rangeOverflows addr qty then
        return some exIllegalDataAddress
      else
        return none

def handleWriteMultiple (h : Handlers σ) (req : Object UInt8) (reqLen : Nat) (resp : Object UInt8)
    (s : σ) : Except Fault (Outcome σ) := do
  let fc ← req.load offsetFc
  let qty ← getU16 req offsetQty
  if fc = funcWriteMultipleCoils then
    match h.writeBits with
    | none => buildException resp fc exIllegalFunction s []
    | some writeBits =>
      match ← checkWriteMultiple req reqLen with
      | some ex => buildException resp fc ex s []
      | none =>
        let addr ← getU16 req offsetAddr
        let bits ← unpackBits req offsetWriteData qty (.fresh maxWriteBits)
        let bits ← bits.loads 0 qty.toNat
        let ret := writeBits addr qty bits s
        let calls := [.writeBits addr qty bits]
        if ret.rc ≠ 0 then
          buildException resp fc (exceptionFromCallbackRc ret.rc) ret.state calls
        else
          buildWriteEcho req resp ret.state calls
  else
    match h.writeRegisters with
    | none => buildException resp fc exIllegalFunction s []
    | some writeRegisters =>
      match ← checkWriteMultiple req reqLen with
      | some ex => buildException resp fc ex s []
      | none =>
        let addr ← getU16 req offsetAddr
        let data ← (List.range qty.toNat).foldlM (fun (data : Object UInt16) i => do
          let value ← getU16 req (offsetWriteData + i * 2)
          data.store i value) (.fresh maxWriteRegisters)
        let data ← data.loads 0 qty.toNat
        let ret := writeRegisters addr qty data s
        let calls := [.writeRegisters addr qty data]
        if ret.rc ≠ 0 then
          buildException resp fc (exceptionFromCallbackRc ret.rc) ret.state calls
        else
          buildWriteEcho req resp ret.state calls

def handleRequest (h : Handlers σ) (locals : Locals) (req : Object UInt8) (reqLen : Nat)
    (resp : Object UInt8) (s : σ) : Except Fault (Outcome σ) := do
  let fc ← req.load offsetFc
  if !isRead fc && !isWrite fc then
    buildException resp fc exIllegalFunction s []
  else if reqLen < fixedReqLen then
    buildException resp fc exIllegalDataValue s []
  else
    let addr ← getU16 req offsetAddr
    let qty ← getU16 req offsetQty
    if fc = funcReadCoils ∨ fc = funcReadDiscreteInputs then
      handleReadBits h locals fc addr qty resp s
    else if fc = funcReadHoldingRegisters ∨ fc = funcReadInputRegisters then
      handleReadRegisters h locals fc addr qty resp s
    else if fc = funcWriteSingleCoil then
      handleWriteSingleCoil h req resp s
    else if fc = funcWriteSingleRegister then
      handleWriteSingleRegister h req resp s
    else
      handleWriteMultiple h req reqLen resp s

end Pdu.Checked
