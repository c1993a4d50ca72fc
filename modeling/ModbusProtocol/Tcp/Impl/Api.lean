import ModbusProtocol.Pdu.Api
import ModbusProtocol.Tcp.Impl.Client

/-!
This module contains the write functions of `modbus_tcp_client.c`, and all that it offers to a program with a connection.
-/

open Modbus Posix

namespace Tcp.Client

def writeSingleRegister (ses : Option Session) (addr value : UInt16) (buffers : ReadBuffers)
    : WriteResult Session :=
  match ses with
  | none => ⟨errArg, none, []⟩
  | some ses =>
    let (pdu, pduLen) := Pdu.buildWriteSingle buffers.pdu funcWriteSingleRegister addr value
    let result := transact ses buffers.req pdu pduLen buffers.resp
    ⟨result.rc, some result.ses, result.events⟩

def writeSingleCoil (ses : Option Session) (addr : UInt16) (value : UInt8) (buffers : ReadBuffers)
    : WriteResult Session :=
  match ses with
  | none => ⟨errArg, none, []⟩
  | some ses =>
    let (pdu, pduLen) := Pdu.buildWriteSingle buffers.pdu funcWriteSingleCoil addr
      (if value ≠ 0 then coilOn else coilOff)
    let result := transact ses buffers.req pdu pduLen buffers.resp
    ⟨result.rc, some result.ses, result.events⟩

def writeMultipleRegisters (ses : Option Session) (addr qty : UInt16) (data : Option (Mem UInt16))
    (buffers : ReadBuffers) : WriteResult Session :=
  match ses, data with
  | some ses, some data =>
    if qty = 0 ∨ qty.toNat > maxWriteRegisters then
      ⟨errArg, some ses, []⟩
    else
      let (pdu, pduLen) := Pdu.buildWriteRegisters buffers.pdu addr qty data
      let result := transact ses buffers.req pdu pduLen buffers.resp
      ⟨result.rc, some result.ses, result.events⟩
  | ses, _ => ⟨errArg, ses, []⟩

def writeMultipleCoils (ses : Option Session) (addr qty : UInt16) (values : Option (Mem UInt8))
    (buffers : ReadBuffers) : WriteResult Session :=
  match ses, values with
  | some ses, some values =>
    if qty = 0 ∨ qty.toNat > maxWriteBits then
      ⟨errArg, some ses, []⟩
    else
      let (pdu, pduLen) := Pdu.buildWriteCoils buffers.pdu addr qty values
      let result := transact ses buffers.req pdu pduLen buffers.resp
      ⟨result.rc, some result.ses, result.events⟩
  | ses, _ => ⟨errArg, ses, []⟩

-- `mb_tcp_client_set_unit_id`, with its return value
def Api.setUnitId (ses : Option Session) (unitId : UInt8) : Int × Option Session :=
  match ses with
  | none => (errArg, none)
  | some ses =>
    if !ses.ctx.initialized then
      (errNotConnected, some ses)
    else
      (ok, some { ses with ctx := Client.setUnitId ses.ctx unitId })

def api : ClientApi Session where
  readHoldingRegisters := readHoldingRegisters
  readInputRegisters := readInputRegisters
  readCoils := readCoils
  readDiscreteInputs := readDiscreteInputs
  writeSingleRegister := writeSingleRegister
  writeSingleCoil := writeSingleCoil
  writeMultipleRegisters := writeMultipleRegisters
  writeMultipleCoils := writeMultipleCoils
  setUnitId := Api.setUnitId

def Session.pass (us : Nat) (ses : Session) : Session :=
  { ses with line := ses.line.pass us }

end Tcp.Client
