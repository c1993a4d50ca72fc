import ModbusProtocol.Pdu.Process
import ModbusProtocol.Posix.Line

/-!
This module contains the `on_process` callback of `modbus_tcp_server.c`, and the calls of it that the
server thread of `modbus_tcp.c` makes on one connection. Logging is left out.
-/

open Modbus Posix

namespace Tcp

@[simp] abbrev offsetProtoHigh : Nat := 2
@[simp] abbrev offsetProtoLow : Nat := 3
@[simp] abbrev offsetLenHigh : Nat := 4
@[simp] abbrev offsetLenLow : Nat := 5
@[simp] abbrev offsetUnitId : Nat := 6
@[simp] abbrev offsetPdu : Nat := 7

@[simp] abbrev serverUnitIdAny : UInt8 := 0xFF

structure ServerConfig (σ : Type) where
  unitId : UInt8
  handlers : Pdu.Handlers σ

-- One connection, and the application behind the callbacks.
structure Server (σ : Type) where
  state : σ
  line : Line

structure Processed (σ : Type) where
  rc : Int
  server : Server σ
  events : List Event

-- `buf` is the memory behind the pointer the function is handed.
def recvExact (line : Line) (buf : Mem UInt8) (len : Nat) : Bool × Mem UInt8 × Line :=
  let (status, got, line) := line.recvAll len
  (status = .ok, buf.write 0 got, line)

def sendAll (line : Line) (buf : List UInt8) : Bool × Line :=
  line.writeAll false buf

variable {σ : Type}

-- `server_on_process` from the complete request on.
def processFrame (cfg : ServerConfig σ) (stack : Stack σ) (srv : Server σ) (adu : Mem UInt8)
    (mbapRemaining : Nat) : Processed σ :=
  let events := [.frame (adu.slice 0 (tcpMbapHeaderLen + mbapRemaining))]
  let unitId := adu offsetUnitId
  if adu offsetProtoHigh ≠ 0 ∨ adu offsetProtoLow ≠ 0 then
    ⟨0, srv, events⟩
  else if cfg.unitId ≠ serverUnitIdAny ∧ unitId ≠ cfg.unitId then
    ⟨0, srv, events⟩
  else
    let pduLen := mbapRemaining - 1
    let out := Pdu.handleRequest cfg.handlers (stack.locals srv.state) (adu.shift offsetPdu) pduLen
      ((stack.resp srv.state).shift offsetPdu) srv.state
    let resp := (stack.resp srv.state).splice offsetPdu out.resp
    let events := events ++ out.calls.map .call
    let respMbapLen := UInt16.ofNat (1 + out.len)
    let resp := resp.write 0 (adu.slice 0 offsetLenHigh)
    let resp := resp.set offsetLenHigh (respMbapLen >>> 8).toUInt8
    let resp := resp.set offsetLenLow (respMbapLen &&& 0xFF).toUInt8
    let resp := resp.set offsetUnitId unitId
    let respLen := offsetPdu + out.len
    let events := events ++ [.send (resp.slice 0 respLen)]
    match sendAll srv.line (resp.slice 0 respLen) with
    | (false, line) => ⟨-1, ⟨out.state, line⟩, events⟩
    | (true, line) => ⟨0, ⟨out.state, line⟩, events⟩

def serverOnProcess (cfg : ServerConfig σ) (stack : Stack σ) (srv : Server σ) : Processed σ :=
  match recvExact srv.line (stack.adu srv.state) tcpMbapHeaderLen with
  | (false, _, line) => ⟨-1, { srv with line := line }, []⟩
  | (true, adu, line) =>
    let mbapRemaining := ((adu offsetLenHigh).toUInt16 <<< 8) ||| (adu offsetLenLow).toUInt16
    if mbapRemaining < 2 ∨ mbapRemaining.toNat > tcpMaxAduLength - tcpMbapHeaderLen then
      ⟨-1, { srv with line := line }, []⟩
    else
      match recvExact line (adu.shift tcpMbapHeaderLen) mbapRemaining.toNat with
      | (false, _, line) => ⟨-1, { srv with line := line }, []⟩
      | (true, body, line) =>
        let adu := adu.splice tcpMbapHeaderLen body
        processFrame cfg stack { srv with line := line } adu mbapRemaining.toNat

-- Calls of `server_on_process` on one connection, each after a pause. The first that fails makes the
-- thread close the connection.
structure Run (σ : Type) where
  server : Server σ
  events : List Event
  closed : Bool

def Server.pass (srv : Server σ) (us : Nat) : Server σ :=
  { srv with line := srv.line.pass us }

def runServer (cfg : ServerConfig σ) (stack : Stack σ) : List Nat → Server σ → Run σ
  | [], srv => ⟨srv, [], false⟩
  | pause :: pauses, srv =>
    let p := serverOnProcess cfg stack (srv.pass pause)
    if p.rc < 0 then
      ⟨p.server, p.events, true⟩
    else
      let run := runServer cfg stack pauses p.server
      ⟨run.server, p.events ++ run.events, run.closed⟩

end Tcp
