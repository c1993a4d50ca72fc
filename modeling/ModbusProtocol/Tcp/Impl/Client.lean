import ModbusProtocol.Pdu.Operation
import ModbusProtocol.Pdu.Read
import ModbusProtocol.Tcp.Impl.Server
import ModbusProtocol.Tcp.Impl.Transport

/-!
This module contains `modbus_tcp_client.c`: a transaction, and the connection it goes over.

Logging and locks are left out. The time of a line is in nanoseconds, and the clock of a client is always
readable. What a receive has read comes with its return value, also on failure.
-/

open Modbus Posix

namespace Tcp.Client

@[simp] abbrev offsetTidHigh : Nat := 0
@[simp] abbrev offsetTidLow : Nat := 1

@[simp] abbrev recvProtocolIdError : Int := -3
@[simp] abbrev recvPartialTimeout : Int := -4

@[simp] abbrev ok : Int := 0
@[simp] abbrev errArg : Int := -1
@[simp] abbrev errNotConnected : Int := -2
@[simp] abbrev errTransport : Int := -3
@[simp] abbrev errTimeout : Int := -4
@[simp] abbrev errFrame : Int := -5
@[simp] abbrev errTid : Int := -6

@[simp] abbrev defaultResponseTimeoutMs : Nat := 1000

structure ClientConfig where
  remoteHost : String
  port : UInt16
  bindIface : String
  unitId : UInt8
  responseTimeoutMs : UInt32
  deriving DecidableEq, Repr

structure ClientCtx where
  sock : Int
  tid : UInt16
  initialized : Bool
  cfg : ClientConfig
  deriving DecidableEq, Repr

-- The context of a client and the connection behind its descriptor.
structure Session where
  ctx : ClientCtx
  line : Line

def recvExact (line : Line) (len : Nat) : Int × List UInt8 × Line :=
  match line.recvAll len with
  | (.ok, got, line) => (0, got, line)
  | (.again, got, line) => (-2, got, line)
  | (.hangup, got, line) => (-1, got, line)
  | (.error, got, line) => (-1, got, line)

def recvErrToClientErr (recvRc : Int) : Int :=
  if recvRc = -2 ∨ recvRc = recvPartialTimeout then
    errTimeout
  else if recvRc = recvProtocolIdError then
    errFrame
  else
    errTransport

def nextTid (tid : UInt16) : UInt16 :=
  if tid < 0xFFFF then tid + 1 else 1

def monotonicMs (line : Line) : Nat × Line :=
  let (_, line) := line.clock
  (line.now / 1000000, line)

def effectiveResponseTimeoutMs (cfg : ClientConfig) : Nat :=
  if cfg.responseTimeoutMs ≠ 0 then cfg.responseTimeoutMs.toNat else defaultResponseTimeoutMs

-- The conversion to int of a number of milliseconds, of which poll() takes a negative one for no limit.
def pollTimeout (ms : Nat) : Option Nat :=
  let timeout := (BitVec.ofNat 32 ms).toInt
  if timeout < 0 then none else some (1000000 * timeout.toNat)

def waitLoop (deadlineMs : Nat) : Nat → Line → Int × Line
  | 0, line => (-1, line)
  | fuel + 1, line =>
    let (nowMs, line) := monotonicMs line
    if nowMs ≥ deadlineMs then
      (-2, line)
    else
      match line.poll (pollTimeout (deadlineMs - nowMs)) with
      | (.ready, line) => (0, line)
      | (.timeout, line) => (-2, line)
      | (.intr, line) => waitLoop deadlineMs fuel line
      | (.error, line) => (-1, line)

-- Only an interrupted wait is repeated, and every interruption is a turn.
def waitReadable (line : Line) (deadlineMs : Nat) : Int × Line :=
  waitLoop deadlineMs (line.turns.length + 1) line

structure Received where
  rc : Int
  buf : Mem UInt8
  totalLen : Nat
  line : Line

-- `recv_response` from the header on.
def recvBody (buf : Mem UInt8) (totalLen : Nat) (line : Line) : Received :=
  let mbapRemaining := ((buf offsetLenHigh).toUInt16 <<< 8) ||| (buf offsetLenLow).toUInt16
  if mbapRemaining = 0 ∨ mbapRemaining.toNat > tcpMaxAduLength - tcpMbapHeaderLen then
    ⟨-1, buf, totalLen, line⟩
  else
    let (rc, got, line) := recvExact line mbapRemaining.toNat
    let buf := buf.write tcpMbapHeaderLen got
    if rc ≠ 0 then
      ⟨if rc = -2 then recvPartialTimeout else rc, buf, totalLen, line⟩
    else
      let totalLen := tcpMbapHeaderLen + mbapRemaining.toNat
      if buf offsetProtoHigh ≠ 0 ∨ buf offsetProtoLow ≠ 0 then
        ⟨recvProtocolIdError, buf, totalLen, line⟩
      else
        ⟨0, buf, totalLen, line⟩

def recvResponse (line : Line) (buf : Mem UInt8) (deadlineMs totalLen : Nat) : Received :=
  let (rc, line) := waitReadable line deadlineMs
  if rc ≠ 0 then
    ⟨rc, buf, totalLen, line⟩
  else
    let (rc, got, line) := recvExact line tcpMbapHeaderLen
    let buf := buf.write 0 got
    if rc ≠ 0 then
      ⟨if rc = -2 then recvPartialTimeout else rc, buf, totalLen, line⟩
    else
      recvBody buf totalLen line

def tidOf (buf : Mem UInt8) : UInt16 :=
  ((buf offsetTidHigh).toUInt16 <<< 8) ||| (buf offsetTidLow).toUInt16

-- The loop of `transact` over late replies to earlier requests, with whether one has been seen.
def recvLoop (tid : UInt16) (deadlineMs : Nat) : Nat → Received → Bool → Received × Bool
  | 0, last, staleSeen => ({ last with rc := -1 }, staleSeen)
  | fuel + 1, last, staleSeen =>
    let received := recvResponse last.line last.buf deadlineMs last.totalLen
    if received.rc ≠ 0 then
      (received, staleSeen)
    else if tidOf received.buf = tid then
      (received, staleSeen)
    else
      recvLoop tid deadlineMs fuel received true

-- Every round that is repeated has received a frame.
def recvMatching (line : Line) (resp : Mem UInt8) (tid : UInt16) (deadlineMs : Nat)
    : Received × Bool :=
  recvLoop tid deadlineMs (line.incoming.length + 1) ⟨0, resp, 0, line⟩ false

structure Transacted where
  rc : Int
  resp : Mem UInt8
  ses : Session
  events : List Event

-- `transact` from the sent request on.
def awaitReply (ctx : ClientCtx) (tid : UInt16) (pdu resp : Mem UInt8) (line : Line)
    (events : List Event) : Transacted :=
  let (nowMs, line) := monotonicMs line
  let deadlineMs := nowMs + effectiveResponseTimeoutMs ctx.cfg
  let (received, staleSeen) := recvMatching line resp tid deadlineMs
  let sock := if received.rc = -1 ∨ received.rc = recvPartialTimeout then -1 else ctx.sock
  let ses := ⟨{ ctx with sock := sock }, received.line⟩
  if received.rc = -2 ∧ staleSeen then
    ⟨errTid, received.buf, ses, events⟩
  else if received.rc ≠ 0 then
    ⟨recvErrToClientErr received.rc, received.buf, ses, events⟩
  else if received.totalLen ≤ offsetPdu then
    ⟨errFrame, received.buf, ses, events⟩
  else
    let rc := Pdu.checkResponse pdu (received.buf.shift offsetPdu) (received.totalLen - offsetPdu)
    if rc = Pdu.errFrame then
      ⟨errFrame, received.buf, ses, events⟩
    else
      ⟨rc, received.buf, ses, events⟩

-- The request ADU in `req`, which holds the indeterminate contents of the local array.
def frameRequest (tid : UInt16) (unitId : UInt8) (req pdu : Mem UInt8) (pduLen : Nat) : List UInt8 :=
  let mbapLen := UInt16.ofNat (1 + pduLen)
  let req := req.set offsetProtoHigh 0
  let req := req.set offsetProtoLow 0
  let req := req.set offsetLenHigh (mbapLen >>> 8).toUInt8
  let req := req.set offsetLenLow (mbapLen &&& 0xFF).toUInt8
  let req := req.write offsetPdu (pdu.slice 0 pduLen)
  let req := req.set offsetTidHigh (tid >>> 8).toUInt8
  let req := req.set offsetTidLow (tid &&& 0xFF).toUInt8
  let req := req.set offsetUnitId unitId
  req.slice 0 (offsetPdu + pduLen)

def transact (ses : Session) (req pdu : Mem UInt8) (pduLen : Nat) (resp : Mem UInt8)
    : Transacted :=
  if !ses.ctx.initialized then
    ⟨errNotConnected, resp, ses, []⟩
  else if ses.ctx.sock < 0 then
    ⟨errNotConnected, resp, ses, []⟩
  else
    let tid := nextTid ses.ctx.tid
    let ctx := { ses.ctx with tid := tid }
    let adu := frameRequest tid ctx.cfg.unitId req pdu pduLen
    match sendAll ses.line adu with
    | (false, line) => ⟨errTransport, resp, ⟨{ ctx with sock := -1 }, line⟩, [.send adu]⟩
    | (true, line) => awaitReply ctx tid pdu resp line [.send adu]

structure Performed where
  rc : Int
  out : Pdu.Out
  resp : Mem UInt8
  ses : Session
  events : List Event

-- A call of the client API that has passed its argument checks. `buf`, `req` and `resp` hold the
-- indeterminate contents of local arrays.
def perform (ses : Session) (op : Pdu.Operation) (buf req resp : Mem UInt8) (out : Pdu.Out)
    : Performed :=
  let (pdu, pduLen) := op.build buf
  let result := transact ses req pdu pduLen resp
  let out := if result.rc = ok then op.decode (result.resp.shift offsetPdu) out else out
  ⟨result.rc, out, result.resp, result.ses, result.events⟩

-- `read_registers`
def readRegisters (fc : UInt8) : ReadFunction Session UInt16 := fun ses addr qty out buffers =>
  match ses, out with
  | some ses, some out =>
    if qty = 0 ∨ qty.toNat > maxReadRegisters then
      ⟨errArg, some out, some ses, []⟩
    else
      let (pdu, pduLen) := Pdu.buildRead buffers.pdu fc addr qty
      let result := transact ses buffers.req pdu pduLen buffers.resp
      let out := if result.rc = ok then Pdu.getRegisters (result.resp.shift offsetPdu) qty out else out
      ⟨result.rc, some out, some result.ses, result.events⟩
  | ses, out => ⟨errArg, out, ses, []⟩

-- `read_bits`
def readBits (fc : UInt8) : ReadFunction Session UInt8 := fun ses addr qty out buffers =>
  match ses, out with
  | some ses, some out =>
    if qty = 0 ∨ qty.toNat > maxReadBits then
      ⟨errArg, some out, some ses, []⟩
    else
      let (pdu, pduLen) := Pdu.buildRead buffers.pdu fc addr qty
      let result := transact ses buffers.req pdu pduLen buffers.resp
      let out := if result.rc = ok then Pdu.getBits (result.resp.shift offsetPdu) qty out else out
      ⟨result.rc, some out, some result.ses, result.events⟩
  | ses, out => ⟨errArg, out, ses, []⟩

def readHoldingRegisters : ReadFunction Session UInt16 :=
  readRegisters funcReadHoldingRegisters

def readInputRegisters : ReadFunction Session UInt16 :=
  readRegisters funcReadInputRegisters

def readCoils : ReadFunction Session UInt8 :=
  readBits funcReadCoils

def readDiscreteInputs : ReadFunction Session UInt8 :=
  readBits funcReadDiscreteInputs

def setUnitId (ctx : ClientCtx) (unitId : UInt8) : ClientCtx :=
  if !ctx.initialized then
    ctx
  else
    { ctx with cfg := { ctx.cfg with unitId := unitId } }

structure ClientEnv where
  mutexInit : Bool
  connect : ConnectEnv

-- `mb_tcp_client_connect`
def connect (env : ClientEnv) (owner : Owner) (ctx : ClientCtx) (cfg : ClientConfig)
    : Int × ClientCtx × List Act :=
  if cfg.remoteHost = "" ∨ cfg.port = 0 then
    (-1, ctx, [])
  else if ctx.initialized then
    (-1, ctx, [])
  else
    let ctx : ClientCtx := ⟨-1, 0, false, cfg⟩
    if !env.mutexInit then
      (-1, ctx, [])
    else
      let (rc, sock, acts) := Tcp.connect env.connect ctx.sock cfg.bindIface cfg.remoteHost cfg.port
      if rc ≠ 0 then
        (-1, { ctx with sock := -1 },
          [.acquire (.mutex owner)] ++ acts ++ [.release (.mutex owner)])
      else
        (0, { ctx with sock := sock, initialized := true }, [.acquire (.mutex owner)] ++ acts)

-- `mb_tcp_client_disconnect`
def disconnect (owner : Owner) (ctx : ClientCtx) : ClientCtx × List Act :=
  if !ctx.initialized then
    (ctx, [])
  else
    ({ ctx with sock := if ctx.sock ≥ 0 then -1 else ctx.sock, initialized := false },
      closeSocket ctx.sock ++ [.release (.mutex owner)])

-- What a request does with the socket of the context, which it closes when it loses the connection.
def requestActs (owner : Owner) (ctx ctx' : ClientCtx) : List Act :=
  if !ctx.initialized then
    []
  else if ctx.sock < 0 then
    [.use (.mutex owner)]
  else if ctx'.sock < 0 then
    [.use (.mutex owner), .use (.descriptor ctx.sock), .release (.descriptor ctx.sock)]
  else
    [.use (.mutex owner), .use (.descriptor ctx.sock)]

def ClientCtx.zeroed : ClientCtx :=
  ⟨0, 0, false, ⟨"", 0, "", 0, 0⟩⟩

end Tcp.Client
