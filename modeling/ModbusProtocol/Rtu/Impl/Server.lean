import ModbusProtocol.Pdu.Process
import ModbusProtocol.Posix.Line
import ModbusProtocol.Rtu.Impl.Crc

/-!
This module contains the request assembly and the `on_process` callback of `modbus_rtu_server.c`.

Logging is left out, and a `size_t` is a natural number below `sizeLimit`.
-/

open Modbus Posix

namespace Rtu

@[simp] abbrev offsetUnitId : Nat := 0
@[simp] abbrev offsetFc : Nat := 1
@[simp] abbrev offsetPdu : Nat := 1
@[simp] abbrev offsetWriteByteCnt : Nat := 6

@[simp] abbrev serverUnitIdAny : UInt8 := 0xFF
@[simp] abbrev serverDefaultRecvTimeoutMs : Nat := rtuDefaultTimeoutMs
@[simp] abbrev timingDisabled : UInt32 := 0xFFFFFFFF

abbrev sizeLimit : Nat := 2 ^ 64

structure ServerConfig (σ : Type) where
  unitId : UInt8
  recvTimeoutMs : UInt32
  interFrameDelayUs : UInt32
  localEcho : Bool
  handlers : Pdu.Handlers σ
  -- whether the hook is set
  onTxEnable : Bool

structure ServerCtx where
  rxBuffer : Mem UInt8
  rxLen : Nat
  lastRxUs : Nat
  t35Us : UInt32

def effectiveTiming (configured defaultValue : UInt32) : UInt32 :=
  if configured = timingDisabled then
    0
  else if configured = 0 then
    defaultValue
  else
    configured

variable {σ : Type}

def effectiveTimeoutMs (cfg : ServerConfig σ) : Nat :=
  if cfg.recvTimeoutMs ≠ 0 then cfg.recvTimeoutMs.toNat else serverDefaultRecvTimeoutMs

def effectiveInterFrameUs (cfg : ServerConfig σ) (ctx : ServerCtx) : Nat :=
  (effectiveTiming cfg.interFrameDelayUs ctx.t35Us).toNat

def currentTimeUs (line : Line) : Nat × Line :=
  let (now, line) := line.clock
  (now.getD 0, line)

def waitResponseSilence (line : Line) (sinceUs requiredUs : Nat) : Line :=
  if requiredUs = 0 then
    line
  else if sinceUs = 0 then
    line.sleep requiredUs
  else
    let (nowUs, line) := currentTimeUs line
    if nowUs < sinceUs then
      line.sleep requiredUs
    else
      let elapsedUs := nowUs - sinceUs
      if elapsedUs < requiredUs then
        line.sleep (requiredUs - elapsedUs)
      else
        line

def resetRxState (ctx : ServerCtx) : ServerCtx :=
  { ctx with rxLen := 0, lastRxUs := 0 }

def readLoop (nowUs : Nat) : Nat → ServerCtx → Line → Bool × ServerCtx × Line
  | 0, ctx, line => (false, ctx, line)
  | fuel + 1, ctx, line =>
    if ctx.rxLen < rtuMaxAduLength then
      match line.read (rtuMaxAduLength - ctx.rxLen) with
      | (.bytes chunk, line) =>
        let ctx := { ctx with
          rxBuffer := ctx.rxBuffer.write ctx.rxLen chunk
          rxLen := ctx.rxLen + chunk.length
          lastRxUs := nowUs }
        readLoop nowUs fuel ctx line
      | (.hangup, line) => (true, ctx, line)
      | (.intr, line) => readLoop nowUs fuel ctx line
      | (.again, line) => (true, ctx, line)
      | (.error, line) => (false, ctx, line)
    else
      (true, ctx, line)

def readAvailableBytes (ctx : ServerCtx) (line : Line) (nowUs : Nat) : Bool × ServerCtx × Line :=
  readLoop nowUs (line.effort + 1) ctx line

-- The return value of `get_complete_request_len` together with its output parameter.
inductive RequestLen where
  | incomplete
  | malformed
  | complete (totalLen : Nat)
  deriving DecidableEq, Repr

def getCompleteRequestLen (adu : Mem UInt8) (rxLen aduCap : Nat) : RequestLen :=
  if rxLen < 2 then
    .incomplete
  else
    let fc := adu offsetFc
    if fc = funcWriteMultipleCoils ∨ fc = funcWriteMultipleRegisters then
      if rxLen ≤ offsetWriteByteCnt then
        .incomplete
      else
        let byteCount := adu offsetWriteByteCnt
        let frameLen := 9 + byteCount.toNat
        if byteCount = 0 ∨ frameLen > aduCap then
          .malformed
        else if rxLen < frameLen then
          .incomplete
        else
          .complete frameLen
    else if aduCap < rtuMinReqLength then
      .malformed
    else if rxLen < rtuMinReqLength then
      .incomplete
    else
      .complete rtuMinReqLength

def dropRxBytes (ctx : ServerCtx) (count : Nat) : ServerCtx :=
  let remaining := (ctx.rxLen + sizeLimit - count) % sizeLimit
  let rxBuffer := fun i => if i < remaining then ctx.rxBuffer (count + i) else ctx.rxBuffer i
  { ctx with rxBuffer := rxBuffer, rxLen := remaining }

-- The `for (;;)` of `extract_request_frame`: the length of the frame at the head of the buffer it has
-- stopped at, if it has stopped at one.
def resyncLoop (aduCap : Nat) : Nat → ServerCtx → Option Nat × ServerCtx
  | 0, ctx => (none, ctx)
  | fuel + 1, ctx =>
    match getCompleteRequestLen ctx.rxBuffer ctx.rxLen rtuMaxAduLength with
    | .incomplete => (none, ctx)
    | .malformed => resyncLoop aduCap fuel (dropRxBytes ctx 1)
    | .complete frameLen =>
      if frameLen ≤ aduCap ∧ validateCrc ctx.rxBuffer frameLen then
        (some frameLen, ctx)
      else
        resyncLoop aduCap fuel (dropRxBytes ctx 1)

def clearIdle (ctx : ServerCtx) : ServerCtx :=
  if ctx.rxLen = 0 then { ctx with lastRxUs := 0 } else ctx

-- Every round of the loop drops a byte, so `rxLen` rounds and a last one are enough.
def extractRequestFrame (ctx : ServerCtx) (adu : Mem UInt8) (aduCap : Nat)
    : Option (Mem UInt8 × Nat) × ServerCtx :=
  match resyncLoop aduCap (ctx.rxLen + 1) ctx with
  | (none, ctx) => (none, clearIdle ctx)
  | (some frameLen, ctx) =>
    let adu := adu.write 0 (ctx.rxBuffer.slice 0 frameLen)
    (some (adu, frameLen), clearIdle (dropRxBytes ctx frameLen))

def writeAll (line : Line) (buf : List UInt8) : Bool × Line :=
  match line.writeAll true buf with
  | (false, line) => (false, line)
  | (true, line) => line.drain

def sendFrame (cfg : ServerConfig σ) (line : Line) (buf : List UInt8)
    : Bool × Line × List Event :=
  let (ok, line) := writeAll line buf
  if cfg.onTxEnable then
    (ok, line, [.txEnable true, .send buf, .txEnable false])
  else
    (ok, line, [.send buf])

def echoLoop (deadlineUs len : Nat) : Nat → Line → Nat → Line
  | 0, line, _ => line
  | fuel + 1, line, got =>
    if got < len then
      let (nowUs, line) := currentTimeUs line
      if nowUs ≥ deadlineUs then
        line
      else
        match line.select (deadlineUs - nowUs) with
        | (.ready, line) =>
          match line.read (len - got) with
          | (.bytes chunk, line) => echoLoop deadlineUs len fuel line (got + chunk.length)
          | (.hangup, line) => line
          | (.intr, line) => echoLoop deadlineUs len fuel line got
          | (.again, line) => echoLoop deadlineUs len fuel line got
          | (.error, line) => line
        | (_, line) => echoLoop deadlineUs len fuel line got
    else
      line

-- A round without a turn moves a byte or lets the deadline pass.
def discardEcho (cfg : ServerConfig σ) (line : Line) (len : Nat) : Line :=
  let (nowUs, line) := currentTimeUs line
  let deadlineUs := nowUs + effectiveTimeoutMs cfg * 1000
  echoLoop deadlineUs len (line.effort + 2) line 0

def unitIdMatches (cfg : ServerConfig σ) (unitId : UInt8) : Bool :=
  if unitId = rtuBroadcastAddress then
    true
  else if cfg.unitId = serverUnitIdAny then
    true
  else
    unitId = cfg.unitId

-- Whether the bytes in the buffer are given up because nothing has followed them for too long.
def assemblyTimedOut (cfg : ServerConfig σ) (ctx : ServerCtx) (nowUs : Nat) : Bool :=
  ctx.rxLen > 0 ∧ ctx.lastRxUs > 0 ∧ nowUs ≥ ctx.lastRxUs ∧
    nowUs - ctx.lastRxUs > effectiveTimeoutMs cfg * 1000

structure Server (σ : Type) where
  ctx : ServerCtx
  state : σ
  line : Line

structure Processed (σ : Type) where
  rc : Int
  server : Server σ
  events : List Event

-- `server_on_process` from the extracted frame on.
def processFrame (cfg : ServerConfig σ) (stack : Stack σ) (srv : Server σ) (adu : Mem UInt8)
    (totalLen requestEndUs : Nat) : Processed σ :=
  let events := [.frame (adu.slice 0 totalLen)]
  let unitId := adu offsetUnitId
  let fc := adu offsetFc
  let isBroadcast := unitId = rtuBroadcastAddress
  if !unitIdMatches cfg unitId then
    ⟨0, srv, events⟩
  else if isBroadcast ∧ !Pdu.isWrite fc then
    ⟨0, srv, events⟩
  else
    let pduLen := totalLen - offsetPdu - rtuCrcLen
    let out := Pdu.handleRequest cfg.handlers (stack.locals srv.state) (adu.shift offsetPdu) pduLen
      ((stack.resp srv.state).shift offsetPdu) srv.state
    let resp := (stack.resp srv.state).splice offsetPdu out.resp
    let events := events ++ out.calls.map .call
    let srv := { srv with state := out.state }
    if isBroadcast then
      ⟨0, srv, events⟩
    else
      let resp := resp.set offsetUnitId unitId
      let respLen := offsetPdu + out.len
      match appendCrc resp respLen rtuMaxAduLength with
      | none => ⟨-1, srv, events⟩
      | some resp =>
        let respLen := respLen + rtuCrcLen
        let line := waitResponseSilence srv.line requestEndUs (effectiveInterFrameUs cfg srv.ctx)
        match sendFrame cfg line (resp.slice 0 respLen) with
        | (false, line, sent) => ⟨-1, { srv with line := line }, events ++ sent⟩
        | (true, line, sent) =>
          let line := if cfg.localEcho then discardEcho cfg line respLen else line
          ⟨0, { srv with line := line }, events ++ sent⟩

def serverOnProcess (cfg : ServerConfig σ) (stack : Stack σ) (srv : Server σ) : Processed σ :=
  let (nowUs, line) := currentTimeUs srv.line
  let ctx := if assemblyTimedOut cfg srv.ctx nowUs then resetRxState srv.ctx else srv.ctx
  match readAvailableBytes ctx line nowUs with
  | (false, ctx, line) => ⟨-1, { srv with ctx := ctx, line := line }, []⟩
  | (true, ctx, line) =>
    -- taken before the extraction clears it
    let requestEndUs := ctx.lastRxUs
    match extractRequestFrame ctx (stack.adu srv.state) rtuMaxAduLength with
    | (none, ctx) => ⟨0, { srv with ctx := ctx, line := line }, []⟩
    | (some (adu, totalLen), ctx) =>
      processFrame cfg stack { srv with ctx := ctx, line := line } adu totalLen requestEndUs

-- Calls of `server_on_process` by the serial thread, each after a pause. `ok` says that none of them has
-- reported a failure, which the thread only logs.
structure Run (σ : Type) where
  server : Server σ
  events : List Event
  ok : Bool

def Server.pass (srv : Server σ) (us : Nat) : Server σ :=
  { srv with line := srv.line.pass us }

def runServer (cfg : ServerConfig σ) (stack : Stack σ) : List Nat → Server σ → Run σ
  | [], srv => ⟨srv, [], true⟩
  | pause :: pauses, srv =>
    let p := serverOnProcess cfg stack (srv.pass pause)
    let run := runServer cfg stack pauses p.server
    ⟨run.server, p.events ++ run.events, p.rc = 0 && run.ok⟩

end Rtu
