import ModbusProtocol.Pdu.Frame
import ModbusProtocol.Rtu.Impl.Server

/-!
This module contains the public frame builders and the request parser of `modbus_rtu.c`.
-/

open Modbus

namespace Rtu.Frame

@[simp] abbrev offsetAddrHigh : Nat := 2
@[simp] abbrev offsetAddrLow : Nat := 3
@[simp] abbrev offsetQtyHigh : Nat := 4
@[simp] abbrev offsetQtyLow : Nat := 5
@[simp] abbrev offsetFc16ByteCnt : Nat := 6
@[simp] abbrev offsetFc16Data : Nat := 7

@[simp] abbrev standardPduLen : Nat := 5
@[simp] abbrev readResponseBase : Nat := 5

-- `mb_rtu_build_request_basis`
def buildRequestBasis (unitId : UInt8) (function addr : Int) (nb : UInt16) (req : Option (Mem UInt8))
    (reqCap : Nat) : Built :=
  match req with
  | none => ⟨-1, none⟩
  | some req =>
    if reqCap < rtuMinReqLength then
      ⟨-1, some req⟩
    else if function < 0 ∨ function > 255 ∨ addr < 0 ∨ addr > 65535 then
      ⟨-1, some req⟩
    else
      let req := req.set offsetUnitId unitId
      let req := req.set offsetFc (UInt8.ofInt function)
      let req := req.set offsetAddrHigh (UInt32.ofInt addr >>> 8).toUInt8
      let req := req.set offsetAddrLow (UInt32.ofInt addr &&& 0xFF).toUInt8
      let req := req.set offsetQtyHigh (nb >>> 8).toUInt8
      let req := req.set offsetQtyLow (nb &&& 0xFF).toUInt8
      match appendCrc req (1 + standardPduLen) reqCap with
      | none => ⟨-1, some req⟩
      | some req => ⟨rtuMinReqLength, some req⟩

-- `mb_rtu_build_fc06_request`
def buildFc06Request (unitId : UInt8) (addr value : UInt16) (req : Option (Mem UInt8)) (reqCap : Nat)
    : Built :=
  buildRequestBasis unitId funcWriteSingleRegister.toNat addr.toNat value req reqCap

-- `mb_rtu_build_fc16_request`
def buildFc16Request (unitId : UInt8) (addr numRegisters : UInt16) (values : Option (Mem UInt16))
    (req : Option (Mem UInt8)) (reqCap : Nat) : Built :=
  match req, values with
  | some req, some values =>
    if numRegisters = 0 ∨ numRegisters.toNat > maxWriteRegisters then
      ⟨-1, some req⟩
    else
      let byteCount := UInt8.ofNat (numRegisters.toNat * 2)
      let totalLen := 9 + byteCount.toNat
      if reqCap < totalLen ∨ totalLen > rtuMaxAduLength then
        ⟨-1, some req⟩
      else
        let req := req.set offsetUnitId unitId
        let req := req.set offsetFc funcWriteMultipleRegisters
        let req := req.set offsetAddrHigh (addr >>> 8).toUInt8
        let req := req.set offsetAddrLow (addr &&& 0xFF).toUInt8
        let req := req.set offsetQtyHigh (numRegisters >>> 8).toUInt8
        let req := req.set offsetQtyLow (numRegisters &&& 0xFF).toUInt8
        let req := req.set offsetFc16ByteCnt byteCount
        let req := storeRegisters req offsetFc16Data numRegisters values
        match appendCrc req (totalLen - rtuCrcLen) reqCap with
        | none => ⟨-1, some req⟩
        | some req => ⟨totalLen, some req⟩
  | req, _ => ⟨-1, req⟩

-- `mb_rtu_parse_request`
def parseRequest (request : Mem UInt8) (length : Nat) : Option Parsed :=
  if length < rtuMinReqLength then
    none
  else if !validateCrc request length then
    none
  else
    let functionCode := request offsetFc
    let address :=
      ((request offsetAddrHigh).toUInt16 <<< 8) ||| (request offsetAddrLow).toUInt16
    if functionCode = funcWriteSingleRegister then
      some ⟨functionCode, address, 1⟩
    else
      some ⟨functionCode, address,
        ((request offsetQtyHigh).toUInt16 <<< 8) ||| (request offsetQtyLow).toUInt16⟩

-- `mb_rtu_build_read_registers_response`
def buildReadRegistersResponse (functionCode unitId : UInt8) (data : Option (Mem UInt16))
    (quantity : UInt16) (response : Option (Mem UInt8)) (responseCap : Nat) : Built :=
  match response, data with
  | some response, some data =>
    if quantity.toNat > maxReadRegisters then
      ⟨-1, some response⟩
    else
      let totalLen := readResponseBase + quantity.toNat * 2
      if responseCap < totalLen ∨ totalLen > rtuMaxAduLength then
        ⟨-1, some response⟩
      else
        let response := response.set offsetUnitId unitId
        let response := response.set offsetFc functionCode
        let response := response.set 2 (UInt8.ofNat (quantity.toNat * 2))
        let response := storeRegisters response 3 quantity data
        match appendCrc response (totalLen - rtuCrcLen) responseCap with
        | none => ⟨-1, some response⟩
        | some response => ⟨totalLen, some response⟩
  | response, _ => ⟨-1, response⟩

def build (unitId : UInt8) : RequestCall → Option (Mem UInt8) → Nat → Built
  | .basis function addr nb => buildRequestBasis unitId function addr nb
  | .fc06 addr value => buildFc06Request unitId addr value
  | .fc16 addr numRegisters values => buildFc16Request unitId addr numRegisters values

end Rtu.Frame
