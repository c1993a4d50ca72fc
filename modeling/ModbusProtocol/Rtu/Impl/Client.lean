import ModbusProtocol.Pdu.Operation
import ModbusProtocol.Pdu.Process
import ModbusProtocol.Pdu.Read
import ModbusProtocol.Rtu.Impl.Bus

/-!
This module contains the transaction of `modbus_rtu_client.c`.

Logging and locks are left out. The time of a line is in nanoseconds, and the clock of a client is always
readable. What `read_exact_timeout` has received comes with its return value, also on failure.
-/

open Modbus Posix

namespace Rtu.Client

@[simp] abbrev readByteCountOff : Nat := 2
@[simp] abbrev exceptionLen : Nat := 5
@[simp] abbrev writeResponseLen : Nat := 8

@[simp] abbrev ioFrameError : Int := -10
@[simp] abbrev ioCrcError : Int := -11
@[simp] abbrev ioUnitIdError : Int := -12

@[simp] abbrev ok : Int := 0
@[simp] abbrev errArg : Int := -1
@[simp] abbrev errNotConnected : Int := -2
@[simp] abbrev errTransport : Int := -3
@[simp] abbrev errTimeout : Int := -4
@[simp] abbrev errFrame : Int := -5
@[simp] abbrev errUnitId : Int := -6
@[simp] abbrev errCrc : Int := -7

@[simp] abbrev defaultResponseTimeoutMs : Nat := rtuDefaultTimeoutMs

-- The context of a client, the record it points to and the port behind its descriptor.
structure Session where
  ctx : ClientCtx
  bus : SharedBus
  line : Line

def Session.unitId (ses : Session) : UInt8 :=
  ses.ctx.cfg.unitId

def monotonicUs (line : Line) : Nat × Line :=
  let (_, line) := line.clock
  (line.now / 1000, line)

def busTransactionBegin (ses : Session) : Line :=
  waitBusSilence ses.bus ses.line ses.unitId (effectiveInterFrameUs ses.ctx.cfg ses.bus)
    (effectiveHandoffSilenceMs ses.ctx.cfg)

def busTransactionEnd (ses : Session) (line : Line) : Session :=
  let (bus, line) := markBusTransactionDone ses.bus line ses.unitId
  { ses with bus := bus, line := line }

def frameWireTimeUs (bus : SharedBus) (nbytes : Nat) : Nat :=
  let charBits := charBits bus.dataBits bus.stopBits bus.parity
  (1000000 * (charBits * nbytes) + bus.baudRate.toNat - 1) / bus.baudRate.toNat

def effectiveResponseTimeoutMs (cfg : ClientConfig) : Nat :=
  if cfg.responseTimeoutMs ≠ 0 then cfg.responseTimeoutMs.toNat else defaultResponseTimeoutMs

def responseDeadlineUs (ses : Session) (line : Line) : Nat × Line :=
  let (nowUs, line) := monotonicUs line
  (nowUs + 1000 * effectiveResponseTimeoutMs ses.ctx.cfg +
    frameWireTimeUs ses.bus rtuMaxAduLength, line)

def waitLoop (deadlineUs : Nat) : Nat → Line → Int × Line
  | 0, line => (-1, line)
  | fuel + 1, line =>
    let (nowUs, line) := monotonicUs line
    if nowUs ≥ deadlineUs then
      (-2, line)
    else
      match line.select ((deadlineUs - nowUs) * 1000) with
      | (.ready, line) => (0, line)
      | (.timeout, line) => (-2, line)
      | (.intr, line) => waitLoop deadlineUs fuel line
      | (.error, line) => (-1, line)

-- Only an interrupted wait is repeated, and every interruption is a turn.
def waitReadable (line : Line) (deadlineUs : Nat) : Int × Line :=
  waitLoop deadlineUs (line.turns.length + 1) line

def readLoop (deadlineUs : Nat) : Nat → Line → Nat → Int × List UInt8 × Line
  | 0, line, _ => (-1, [], line)
  | fuel + 1, line, len =>
    if len = 0 then
      (0, [], line)
    else
      let (ready, line) := waitReadable line deadlineUs
      if ready ≠ 0 then
        (ready, [], line)
      else
        match line.read len with
        | (.bytes chunk, line) =>
          let (rc, rest, line) := readLoop deadlineUs fuel line (len - chunk.length)
          (rc, chunk ++ rest, line)
        | (.intr, line) => readLoop deadlineUs fuel line len
        | (.hangup, line) => (-2, [], line)
        | (.again, line) => (-1, [], line)
        | (.error, line) => (-1, [], line)

def readExactTimeout (line : Line) (len deadlineUs : Nat) : Int × List UInt8 × Line :=
  readLoop deadlineUs (line.effort + 1) line len

def writeAll (line : Line) (buf : List UInt8) : Bool × Line :=
  match line.writeAll false buf with
  | (false, line) => (false, line)
  | (true, line) => line.drain

def sendFrame (cfg : ClientConfig) (line : Line) (buf : List UInt8)
    : Bool × Line × List Event :=
  let (sent, line) := writeAll line buf
  if cfg.onTxEnable then
    (sent, line, [.txEnable true, .send buf, .txEnable false])
  else
    (sent, line, [.send buf])

def ioErrToClientErr (rc : Int) : Int :=
  if rc = -2 then
    errTimeout
  else if rc = ioCrcError then
    errCrc
  else if rc = ioFrameError then
    errFrame
  else if rc = ioUnitIdError then
    errUnitId
  else
    errTransport

structure Received where
  rc : Int
  buf : Mem UInt8
  totalLen : Nat
  line : Line

-- `recv_response` from the length of the frame on.
def recvRest (unitId : UInt8) (deadlineUs : Nat) (buf : Mem UInt8) (totalLen frameLen : Nat)
    (line : Line) : Received :=
  let (rc, got, line) := readExactTimeout line (frameLen - totalLen) deadlineUs
  let buf := buf.write totalLen got
  if rc ≠ 0 then
    ⟨rc, buf, totalLen, line⟩
  else if !validateCrc buf frameLen then
    ⟨ioCrcError, buf, frameLen, line⟩
  else if buf offsetUnitId ≠ unitId then
    ⟨ioUnitIdError, buf, frameLen, line⟩
  else
    ⟨0, buf, frameLen, line⟩

-- `recv_response` once the deadline is fixed.
def recvBefore (unitId expectedFc : UInt8) (buf : Mem UInt8) (deadlineUs : Nat) (line : Line)
    : Received :=
  let (rc, got, line) := readExactTimeout line 2 deadlineUs
  let buf := buf.write 0 got
  if rc ≠ 0 then
    ⟨rc, buf, 0, line⟩
  else
    let respFc := buf offsetFc
    if respFc = expectedFc ||| exceptionFlag then
      recvRest unitId deadlineUs buf 2 exceptionLen line
    else if respFc ≠ expectedFc then
      ⟨ioFrameError, buf, 2, line⟩
    else if expectedFc ≤ funcReadInputRegisters then
      let (rc, got, line) := readExactTimeout line 1 deadlineUs
      let buf := buf.write 2 got
      if rc ≠ 0 then
        ⟨rc, buf, 2, line⟩
      else
        let frameLen := 3 + (buf readByteCountOff).toNat + rtuCrcLen
        if frameLen > rtuMaxAduLength then
          ⟨ioFrameError, buf, 3, line⟩
        else
          recvRest unitId deadlineUs buf 3 frameLen line
    else
      recvRest unitId deadlineUs buf 2 writeResponseLen line

def recvResponse (ses : Session) (unitId expectedFc : UInt8) (buf : Mem UInt8) (line : Line)
    : Received :=
  let deadline := responseDeadlineUs ses line
  recvBefore unitId expectedFc buf deadline.1 deadline.2

-- Whether the request has come back, where that is expected.
def recvEcho (ses : Session) (req : List UInt8) (line : Line) : Bool × Line :=
  if ses.ctx.cfg.localEcho then
    let deadline := responseDeadlineUs ses line
    let received := readExactTimeout deadline.2 req.length deadline.1
    (received.1 = 0 ∧ received.2.1 = req, received.2.2)
  else
    (true, line)

structure Transacted where
  rc : Int
  resp : Mem UInt8
  ses : Session
  events : List Event

-- `transact` from the sent request on.
def awaitResponse (ses : Session) (pdu resp : Mem UInt8) (req : List UInt8) (line : Line)
    (events : List Event) : Transacted :=
  let fc := pdu 0
  let unitId := ses.unitId
  match recvEcho ses req line with
  | (false, line) => ⟨errTransport, resp, busTransactionEnd ses line, events⟩
  | (true, line) =>
    if unitId = rtuBroadcastAddress then
      ⟨ok, resp, busTransactionEnd ses line, events⟩
    else
      let received := recvResponse ses unitId fc resp line
      let ses := busTransactionEnd ses received.line
      if received.rc ≠ 0 then
        ⟨ioErrToClientErr received.rc, received.buf, ses, events⟩
      else
        let rc := Pdu.checkResponse pdu (received.buf.shift offsetPdu)
          (received.totalLen - offsetPdu - rtuCrcLen)
        if rc = Pdu.errFrame then
          ⟨errFrame, received.buf, ses, events⟩
        else
          ⟨rc, received.buf, ses, events⟩

-- The port as it is when the request is about to be written, with nothing left to be read.
def Session.flushed (ses : Session) : Line :=
  (busTransactionBegin ses).flush

-- The request ADU in `req`, which holds the indeterminate contents of the local array, and its length.
def frameRequest (unitId : UInt8) (req pdu : Mem UInt8) (pduLen : Nat) : Mem UInt8 × Nat :=
  let req := req.set offsetUnitId unitId
  let req := req.write offsetPdu (pdu.slice 0 pduLen)
  let reqLen := offsetPdu + pduLen
  let req := (appendCrc req reqLen rtuMaxAduLength).getD req
  (req, reqLen + rtuCrcLen)

def transact (ses : Session) (req pdu : Mem UInt8) (pduLen : Nat) (resp : Mem UInt8)
    : Transacted :=
  if !ses.ctx.initialized then
    ⟨errNotConnected, resp, ses, []⟩
  else
    let fc := pdu 0
    let unitId := ses.unitId
    if unitId = rtuBroadcastAddress ∧ !Pdu.isWrite fc then
      ⟨errArg, resp, ses, []⟩
    else
      let framed := frameRequest unitId req pdu pduLen
      let req := framed.1.slice 0 framed.2
      match sendFrame ses.ctx.cfg ses.flushed req with
      | (false, line, events) => ⟨errTransport, resp, busTransactionEnd ses line, events⟩
      | (true, line, events) => awaitResponse ses pdu resp req line events

structure Performed where
  rc : Int
  out : Pdu.Out
  resp : Mem UInt8
  ses : Session
  events : List Event

-- A call of the client API that has passed its argument checks. `buf`, `req` and `resp` hold the
-- indeterminate contents of local arrays.
def perform (ses : Session) (op : Pdu.Operation) (buf req resp : Mem UInt8) (out : Pdu.Out)
    : Performed :=
  let (pdu, pduLen) := op.build buf
  let result := transact ses req pdu pduLen resp
  let out := if result.rc = ok then op.decode (result.resp.shift offsetPdu) out else out
  ⟨result.rc, out, result.resp, result.ses, result.events⟩

-- `read_registers`
def readRegisters (fc : UInt8) : ReadFunction Session UInt16 := fun ses addr qty out buffers =>
  match ses, out with
  | some ses, some out =>
    if qty = 0 ∨ qty.toNat > maxReadRegisters then
      ⟨errArg, some out, some ses, []⟩
    else
      let (pdu, pduLen) := Pdu.buildRead buffers.pdu fc addr qty
      let result := transact ses buffers.req pdu pduLen buffers.resp
      let out := if result.rc = ok then Pdu.getRegisters (result.resp.shift offsetPdu) qty out else out
      ⟨result.rc, some out, some result.ses, result.events⟩
  | ses, out => ⟨errArg, out, ses, []⟩

-- `read_bits`
def readBits (fc : UInt8) : ReadFunction Session UInt8 := fun ses addr qty out buffers =>
  match ses, out with
  | some ses, some out =>
    if qty = 0 ∨ qty.toNat > maxReadBits then
      ⟨errArg, some out, some ses, []⟩
    else
      let (pdu, pduLen) := Pdu.buildRead buffers.pdu fc addr qty
      let result := transact ses buffers.req pdu pduLen buffers.resp
      let out := if result.rc = ok then Pdu.getBits (result.resp.shift offsetPdu) qty out else out
      ⟨result.rc, some out, some result.ses, result.events⟩
  | ses, out => ⟨errArg, out, ses, []⟩

def readHoldingRegisters : ReadFunction Session UInt16 :=
  readRegisters funcReadHoldingRegisters

def readInputRegisters : ReadFunction Session UInt16 :=
  readRegisters funcReadInputRegisters

def readCoils : ReadFunction Session UInt8 :=
  readBits funcReadCoils

def readDiscreteInputs : ReadFunction Session UInt8 :=
  readBits funcReadDiscreteInputs

end Rtu.Client
