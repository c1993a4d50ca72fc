import ModbusProtocol.Data.Mem
import ModbusProtocol.Defines

/-!
This module contains the encoders, the response validator and the decoders of `modbus_pdu.c`. A
buffer is the memory behind the pointer the function is handed, a function that fills a buffer
returns the memory it leaves there.

`checkResponse` returns `0` for a valid response, a positive exception code, or `errFrame`, the
source's `MB_PDU_ERR_FRAME`.
-/

open Modbus

namespace Pdu

@[simp] abbrev offsetFc : Nat := 0
@[simp] abbrev offsetAddr : Nat := 1
@[simp] abbrev offsetQty : Nat := 3
@[simp] abbrev offsetByteCount : Nat := 5
@[simp] abbrev offsetWriteData : Nat := 6
@[simp] abbrev offsetReadByteCount : Nat := 1
@[simp] abbrev offsetReadData : Nat := 2

@[simp] abbrev fixedReqLen : Nat := 5
@[simp] abbrev writeResponseLen : Nat := 5
@[simp] abbrev exceptionLen : Nat := 2

@[simp] abbrev errFrame : Int := -1

def getU16 (p : Mem UInt8) : UInt16 :=
  ((p 0).toUInt16 <<< 8) ||| (p 1).toUInt16

def putU16 (p : Mem UInt8) (v : UInt16) : Mem UInt8 :=
  (p.set 0 (v >>> 8).toUInt8).set 1 (v &&& 0xFF).toUInt8

def rangeOverflows (addr qty : UInt16) : Bool :=
  addr.toUInt32 + qty.toUInt32 > 0x10000

def bitByteCount (qty : UInt16) : Nat :=
  (qty.toNat + 7) / 8

def packBits (values : Mem UInt8) (qty : UInt16) (out : Mem UInt8) : Mem UInt8 :=
  let out := out.write 0 (List.replicate (bitByteCount qty) 0)
  (List.range qty.toNat).foldl (fun out i =>
    if values i ≠ 0 then
      out.set (i / 8) (out (i / 8) ||| (1 <<< UInt8.ofNat (i % 8)))
    else
      out) out

def unpackBits (packed : Mem UInt8) (qty : UInt16) (out : Mem UInt8) : Mem UInt8 :=
  (List.range qty.toNat).foldl (fun out i =>
    out.set i ((packed (i / 8) >>> UInt8.ofNat (i % 8)) &&& 1)) out

def buildException (resp : Mem UInt8) (functionCode exceptionCode : UInt8) : Mem UInt8 × Nat :=
  ((resp.set 0 (functionCode ||| exceptionFlag)).set 1 exceptionCode, exceptionLen)

def exceptionFromCallbackRc (rc : Int) : UInt8 :=
  if rc = exIllegalFunction.toNat ∨ rc = exIllegalDataAddress.toNat ∨
      rc = exIllegalDataValue.toNat ∨ rc = exServerDeviceFailure.toNat ∨
      rc = exAcknowledge.toNat ∨ rc = exServerDeviceBusy.toNat ∨
      rc = exMemoryParityError.toNat ∨ rc = exGatewayPathUnavailable.toNat ∨
      rc = exGatewayTargetFailed.toNat then
    UInt8.ofNat rc.toNat
  else
    exServerDeviceFailure

def buildWriteEcho (req resp : Mem UInt8) : Mem UInt8 × Nat :=
  (resp.write 0 (req.slice 0 writeResponseLen), writeResponseLen)

def buildRead (pdu : Mem UInt8) (functionCode : UInt8) (addr qty : UInt16) : Mem UInt8 × Nat :=
  let pdu := pdu.set offsetFc functionCode
  let pdu := pdu.splice offsetAddr (putU16 (pdu.shift offsetAddr) addr)
  let pdu := pdu.splice offsetQty (putU16 (pdu.shift offsetQty) qty)
  (pdu, fixedReqLen)

def buildWriteSingle (pdu : Mem UInt8) (functionCode : UInt8) (addr value : UInt16)
    : Mem UInt8 × Nat :=
  buildRead pdu functionCode addr value

-- The loop `for (i = 0; i < qty; i++) put_u16(p + i * 2, data[i])` at the end of FC16 requests and of
-- FC03 / FC04 responses.
def putRegisters (p : Mem UInt8) (qty : UInt16) (data : Mem UInt16) : Mem UInt8 :=
  (List.range qty.toNat).foldl (fun p i =>
    p.splice (i * 2) (putU16 (p.shift (i * 2)) (data i))) p

def buildWriteRegisters (pdu : Mem UInt8) (addr qty : UInt16) (data : Mem UInt16)
    : Mem UInt8 × Nat :=
  let pdu := (buildRead pdu funcWriteMultipleRegisters addr qty).1
  let pdu := pdu.set offsetByteCount (UInt8.ofNat (qty.toNat * 2))
  let pdu := pdu.splice offsetWriteData (putRegisters (pdu.shift offsetWriteData) qty data)
  (pdu, offsetWriteData + qty.toNat * 2)

def buildWriteCoils (pdu : Mem UInt8) (addr qty : UInt16) (values : Mem UInt8)
    : Mem UInt8 × Nat :=
  let byteCount := bitByteCount qty
  let pdu := (buildRead pdu funcWriteMultipleCoils addr qty).1
  let pdu := pdu.set offsetByteCount (UInt8.ofNat byteCount)
  let pdu := pdu.splice offsetWriteData (packBits values qty (pdu.shift offsetWriteData))
  (pdu, offsetWriteData + byteCount)

-- The case labels FC01 to FC04 of the switches over the function code.
def isRead (functionCode : UInt8) : Bool :=
  functionCode = funcReadCoils ∨ functionCode = funcReadDiscreteInputs ∨
    functionCode = funcReadHoldingRegisters ∨ functionCode = funcReadInputRegisters

def isWrite (functionCode : UInt8) : Bool :=
  functionCode = funcWriteSingleCoil ∨ functionCode = funcWriteSingleRegister ∨
    functionCode = funcWriteMultipleCoils ∨ functionCode = funcWriteMultipleRegisters

def checkResponse (req resp : Mem UInt8) (respLen : Nat) : Int :=
  let fc := req offsetFc
  let qty := getU16 (req.shift offsetQty)
  if respLen < 1 then
    errFrame
  else if resp offsetFc = fc ||| exceptionFlag then
    if respLen ≠ exceptionLen ∨ resp 1 = 0 then
      errFrame
    else
      (resp 1).toNat
  else if resp offsetFc ≠ fc then
    errFrame
  else if isRead fc then
    let byteCount := if fc ≤ funcReadDiscreteInputs then bitByteCount qty else qty.toNat * 2
    if respLen ≠ offsetReadData + byteCount ∨
        resp offsetReadByteCount ≠ UInt8.ofNat byteCount then
      errFrame
    else
      0
  else if isWrite fc then
    if respLen ≠ writeResponseLen ∨ resp.slice offsetAddr 4 ≠ req.slice offsetAddr 4 then
      errFrame
    else
      0
  else
    errFrame

def getRegisters (resp : Mem UInt8) (qty : UInt16) (out : Mem UInt16) : Mem UInt16 :=
  (List.range qty.toNat).foldl (fun out i =>
    out.set i (getU16 (resp.shift (offsetReadData + i * 2)))) out

def getBits (resp : Mem UInt8) (qty : UInt16) (out : Mem UInt8) : Mem UInt8 :=
  unpackBits (resp.shift offsetReadData) qty out

end Pdu
