import ModbusProtocol.Pdu.Api
import ModbusProtocol.Rtu.Impl.Client

/-!
This module contains the write functions of `modbus_rtu_client.c`, and all that it offers to a program with a port.
-/

open Modbus Posix

namespace Rtu.Client

def writeSingleRegister (ses : Option Session) (addr value : UInt16) (buffers : ReadBuffers)
    : WriteResult Session :=
  match ses with
  | none => ⟨errArg, none, []⟩
  | some ses =>
    let (pdu, pduLen) := Pdu.buildWriteSingle buffers.pdu funcWriteSingleRegister addr value
    let result := transact ses buffers.req pdu pduLen buffers.resp
    ⟨result.rc, some result.ses, result.events⟩

def writeSingleCoil (ses : Option Session) (addr : UInt16) (value : UInt8) (buffers : ReadBuffers)
    : WriteResult Session :=
  match ses with
  | none => ⟨errArg, none, []⟩
  | some ses =>
    let (pdu, pduLen) := Pdu.buildWriteSingle buffers.pdu funcWriteSingleCoil addr
      (if value ≠ 0 then coilOn else coilOff)
    let result := transact ses buffers.req pdu pduLen buffers.resp
    ⟨result.rc, some result.ses, result.events⟩

def writeMultipleRegisters (ses : Option Session) (addr qty : UInt16) (data : Option (Mem UInt16))
    (buffers : ReadBuffers) : WriteResult Session :=
  match ses, data with
  | some ses, some data =>
    if qty = 0 ∨ qty.toNat > maxWriteRegisters then
      ⟨errArg, some ses, []⟩
    else
      let (pdu, pduLen) := Pdu.buildWriteRegisters buffers.pdu addr qty data
      let result := transact ses buffers.req pdu pduLen buffers.resp
      ⟨result.rc, some result.ses, result.events⟩
  | ses, _ => ⟨errArg, ses, []⟩

def writeMultipleCoils (ses : Option Session) (addr qty : UInt16) (values : Option (Mem UInt8))
    (buffers : ReadBuffers) : WriteResult Session :=
  match ses, values with
  | some ses, some values =>
    if qty = 0 ∨ qty.toNat > maxWriteBits then
      ⟨errArg, some ses, []⟩
    else
      let (pdu, pduLen) := Pdu.buildWriteCoils buffers.pdu addr qty values
      let result := transact ses buffers.req pdu pduLen buffers.resp
      ⟨result.rc, some result.ses, result.events⟩
  | ses, _ => ⟨errArg, ses, []⟩

-- `mb_rtu_client_set_unit_id`, with its return value
def Api.setUnitId (ses : Option Session) (unitId : UInt8) : Int × Option Session :=
  match ses with
  | none => (errArg, none)
  | some ses =>
    if !ses.ctx.initialized then
      (errNotConnected, some ses)
    else
      (ok, some { ses with ctx := Client.setUnitId ses.ctx unitId })

-- `mb_rtu_client_probe_device`, with the indeterminate contents of `probe_buf`
def probeDevice (ses : Option Session) (addr qty : UInt16) (probeBuf : Mem UInt16) (buffers : ReadBuffers)
    : WriteResult Session :=
  if qty = 0 ∨ qty.toNat > maxReadRegisters then
    ⟨errArg, ses, []⟩
  else
    let result := readHoldingRegisters ses addr qty (some probeBuf) buffers
    ⟨result.rc, result.ses, result.events⟩

def api : ClientApi Session where
  readHoldingRegisters := readHoldingRegisters
  readInputRegisters := readInputRegisters
  readCoils := readCoils
  readDiscreteInputs := readDiscreteInputs
  writeSingleRegister := writeSingleRegister
  writeSingleCoil := writeSingleCoil
  writeMultipleRegisters := writeMultipleRegisters
  writeMultipleCoils := writeMultipleCoils
  setUnitId := Api.setUnitId

def Session.pass (us : Nat) (ses : Session) : Session :=
  { ses with line := ses.line.pass us }

end Rtu.Client
