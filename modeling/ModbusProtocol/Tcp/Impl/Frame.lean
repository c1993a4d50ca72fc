import ModbusProtocol.Pdu.Frame
import ModbusProtocol.Tcp.Impl.Server

/-!
This module contains the public frame builders and the request parser of `modbus_tcp.c`. Locks are left
out.
-/

open Modbus

namespace Tcp.Frame

@[simp] abbrev mbapPrefixLen : Nat := 6
@[simp] abbrev minReadReqLength : Nat := 12
@[simp] abbrev mbapLenStandardReq : UInt8 := 6

-- What the builders use of a context.
structure Ctx where
  tid : UInt16
  deriving DecidableEq, Repr

-- The context as `mb_tcp_start` leaves it.
def Ctx.started : Ctx :=
  ⟨0⟩

structure CtxBuilt extends Built where
  ctx : Option Ctx

-- `mb_tcp_build_request_basis`
def buildRequestBasis (ctx : Option Ctx) (modbusUid : UInt8) (function addr : Int) (nb : UInt16)
    (req : Option (Mem UInt8)) (reqCap : Nat) : CtxBuilt :=
  match ctx, req with
  | some ctx, some req =>
    if reqCap < minReadReqLength then
      ⟨⟨-1, some req⟩, some ctx⟩
    else if function < 0 ∨ function > 255 ∨ addr < 0 ∨ addr > 65535 then
      ⟨⟨-1, some req⟩, some ctx⟩
    else
      let tid := if ctx.tid < 0xFFFF then ctx.tid + 1 else 1
      let mbapLen : UInt16 := 1 + 5
      let req := req.set 0 (tid >>> 8).toUInt8
      let req := req.set 1 (tid &&& 0xFF).toUInt8
      let req := req.set 2 0
      let req := req.set 3 0
      let req := req.set 4 (mbapLen >>> 8).toUInt8
      let req := req.set 5 (mbapLen &&& 0xFF).toUInt8
      let req := req.set 6 modbusUid
      let req := req.set 7 (UInt8.ofInt function)
      let req := req.set 8 (UInt32.ofInt addr >>> 8).toUInt8
      let req := req.set 9 (UInt32.ofInt addr &&& 0xFF).toUInt8
      let req := req.set 10 (nb >>> 8).toUInt8
      let req := req.set 11 (nb &&& 0xFF).toUInt8
      ⟨⟨0, some req⟩, some ⟨tid⟩⟩
  | ctx, req => ⟨⟨-1, req⟩, ctx⟩

-- `mb_tcp_build_fc06_request`
def buildFc06Request (ctx : Option Ctx) (modbusUid : UInt8) (addr value : UInt16)
    (req : Option (Mem UInt8)) (reqCap : Nat) : CtxBuilt :=
  match ctx, req with
  | some ctx, some req =>
    if reqCap < minReadReqLength then
      ⟨⟨-1, some req⟩, some ctx⟩
    else
      let tid := if ctx.tid < 0xFFFF then ctx.tid + 1 else 1
      let req := req.set 0 (tid >>> 8).toUInt8
      let req := req.set 1 (tid &&& 0xFF).toUInt8
      let req := req.set 2 0
      let req := req.set 3 0
      let req := req.set 4 0
      let req := req.set 5 mbapLenStandardReq
      let req := req.set 6 modbusUid
      let req := req.set 7 funcWriteSingleRegister
      let req := req.set 8 (addr >>> 8).toUInt8
      let req := req.set 9 (addr &&& 0xFF).toUInt8
      let req := req.set 10 (value >>> 8).toUInt8
      let req := req.set 11 (value &&& 0xFF).toUInt8
      ⟨⟨0, some req⟩, some ⟨tid⟩⟩
  | ctx, req => ⟨⟨-1, req⟩, ctx⟩

-- `mb_tcp_build_fc16_request`
def buildFc16Request (ctx : Option Ctx) (modbusUid : UInt8) (addr numRegisters : UInt16)
    (values : Option (Mem UInt16)) (req : Option (Mem UInt8)) (reqCap : Nat) : CtxBuilt :=
  match ctx, req, values with
  | some ctx, some req, some values =>
    if numRegisters = 0 ∨ numRegisters.toNat > maxWriteRegisters then
      ⟨⟨-1, some req⟩, some ctx⟩
    else
      let byteCount := UInt8.ofNat (numRegisters.toNat * 2)
      let mbapLen : UInt16 := 7 + byteCount.toUInt16
      let totalLen := tcpMbapHeaderLen + mbapLen.toNat
      if reqCap < totalLen then
        ⟨⟨-1, some req⟩, some ctx⟩
      else
        let tid := if ctx.tid < 0xFFFF then ctx.tid + 1 else 1
        let req := req.set 0 (tid >>> 8).toUInt8
        let req := req.set 1 (tid &&& 0xFF).toUInt8
        let req := req.set 2 0
        let req := req.set 3 0
        let req := req.set 4 (mbapLen >>> 8).toUInt8
        let req := req.set 5 (mbapLen &&& 0xFF).toUInt8
        let req := req.set 6 modbusUid
        let req := req.set 7 funcWriteMultipleRegisters
        let req := req.set 8 (addr >>> 8).toUInt8
        let req := req.set 9 (addr &&& 0xFF).toUInt8
        let req := req.set 10 (numRegisters >>> 8).toUInt8
        let req := req.set 11 (numRegisters &&& 0xFF).toUInt8
        let req := req.set 12 byteCount
        let req := storeRegisters req 13 numRegisters values
        ⟨⟨totalLen, some req⟩, some ⟨tid⟩⟩
  | ctx, req, _ => ⟨⟨-1, req⟩, ctx⟩

-- `mb_tcp_parse_request`
def parseRequest (request : Mem UInt8) (length : Nat) : Option Parsed :=
  if length < mbapPrefixLen then
    none
  else
    let mbapLen := ((request 4).toUInt16 <<< 8) ||| (request 5).toUInt16
    if mbapLen < 6 then
      none
    else if mbapLen > UInt16.ofNat (tcpMaxAduLength - mbapPrefixLen) then
      none
    else if length < mbapPrefixLen + mbapLen.toNat then
      none
    else
      let functionCode := request 7
      let address := ((request 8).toUInt16 <<< 8) ||| (request 9).toUInt16
      if functionCode = funcWriteSingleRegister then
        some ⟨functionCode, address, 1⟩
      else
        some ⟨functionCode, address, ((request 10).toUInt16 <<< 8) ||| (request 11).toUInt16⟩

-- `mb_tcp_build_read_registers_response`
def buildReadRegistersResponse (tid : UInt16) (functionCode unitId : UInt8)
    (data : Option (Mem UInt16)) (quantity : UInt16) (response : Option (Mem UInt8))
    (responseCap : Nat) : Built :=
  match response, data with
  | some response, some data =>
    if quantity.toNat > 125 then
      ⟨-1, some response⟩
    else
      let pduLen := 1 + 1 + quantity.toNat * 2
      let mbapLen := 1 + pduLen
      let total := mbapPrefixLen + mbapLen
      if responseCap < total then
        ⟨-1, some response⟩
      else
        let response := response.set 0 ((tid >>> 8) &&& 0xFF).toUInt8
        let response := response.set 1 (tid &&& 0xFF).toUInt8
        let response := response.set 2 0
        let response := response.set 3 0
        let response := response.set 4 (UInt8.ofNat (mbapLen >>> 8))
        let response := response.set 5 (UInt8.ofNat (mbapLen &&& 0xFF))
        let response := response.set 6 unitId
        let response := response.set 7 functionCode
        let response := response.set 8 (UInt8.ofNat (quantity.toNat * 2))
        let response := storeRegisters response 9 quantity data
        ⟨total, some response⟩
  | response, _ => ⟨-1, response⟩

def build (ctx : Option Ctx) (modbusUid : UInt8)
    : RequestCall → Option (Mem UInt8) → Nat → CtxBuilt
  | .basis function addr nb => buildRequestBasis ctx modbusUid function addr nb
  | .fc06 addr value => buildFc06Request ctx modbusUid addr value
  | .fc16 addr numRegisters values => buildFc16Request ctx modbusUid addr numRegisters values

-- A call of a builder of requests on a context that is there.
structure Call where
  modbusUid : UInt8
  request : RequestCall
  req : Option (Mem UInt8)
  reqCap : Nat

def Call.run (call : Call) (ctx : Ctx) : CtxBuilt :=
  build (some ctx) call.modbusUid call.request call.req call.reqCap

-- The results of calls on one context.
def runCalls : List Call → Ctx → List CtxBuilt
  | [], _ => []
  | call :: calls, ctx =>
    let built := call.run ctx
    built :: runCalls calls (built.ctx.getD ctx)

end Tcp.Frame
