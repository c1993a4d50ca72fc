import ModbusProtocol.Data.Object
import ModbusProtocol.Data.Rounds
import ModbusProtocol.Rtu.Impl.Server

/-!
This module contains the request assembly of `modbus_rtu_server.c` once more, with every access checked. The
receive buffer is an array of the `rx_len` bytes that are held, so that none behind them may be read, and
dropping more than that is out of its bounds.

The time of the last byte is left out.
-/

open Modbus

namespace Rtu.Checked

def getCompleteRequestLen (adu : Object UInt8) (aduCap : Nat) : Except Fault RequestLen :=
  if adu.size < 2 then
    .ok .incomplete
  else do
    let fc ← adu.load offsetFc
    if fc = funcWriteMultipleCoils ∨ fc = funcWriteMultipleRegisters then
      if adu.size ≤ offsetWriteByteCnt then
        return .incomplete
      else
        let byteCount ← adu.load offsetWriteByteCnt
        let frameLen := 9 + byteCount.toNat
        if byteCount = 0 ∨ frameLen > aduCap then
          return .malformed
        else if adu.size < frameLen then
          return .incomplete
        else
          return .complete frameLen
    else if aduCap < rtuMinReqLength then
      return .malformed
    else if adu.size < rtuMinReqLength then
      return .incomplete
    else
      return .complete rtuMinReqLength

def crc16 (data : Object UInt8) (length : Nat) : Except Fault UInt16 :=
  (List.range length).foldlM (fun crc i => do
    let byte ← data.load i
    return crcByte crc byte) 0xFFFF

def validateCrc (frame : Object UInt8) (frameLen : Nat) : Except Fault Bool :=
  if frameLen < rtuCrcLen then
    .ok false
  else do
    let payloadLen := frameLen - rtuCrcLen
    let expected ← crc16 frame payloadLen
    let low ← frame.load payloadLen
    let high ← frame.load (payloadLen + 1)
    return expected = low.toUInt16 ||| (high.toUInt16 <<< 8)

def dropRxBytes (rx : Object UInt8) (count : Nat) : Except Fault (Object UInt8) :=
  if count ≤ rx.size then do
    let remaining ← rx.loads count (rx.size - count)
    return ⟨remaining.length, fun i => remaining[i]?⟩
  else
    .error .outOfBounds

-- The body of the `for (;;)` of `extract_request_frame`.
def resyncRound (aduCap : Nat) (rx : Object UInt8) : Except Fault (Round (Object UInt8) (Option Nat)) := do
  match ← getCompleteRequestLen rx rtuMaxAduLength with
  | .incomplete => return .stops none
  | .malformed => return .goesOn (← dropRxBytes rx 1)
  | .complete frameLen =>
    if frameLen ≤ aduCap then
      if ← validateCrc rx frameLen then
        return .stops (some frameLen)
      else
        return .goesOn (← dropRxBytes rx 1)
    else
      return .goesOn (← dropRxBytes rx 1)

structure Extracted where
  totalLen : Option Nat
  adu : Object UInt8
  rx : Object UInt8

def copyFrame (rx adu : Object UInt8) (frameLen : Nat) : Except Fault Extracted := do
  let adu ← (List.range frameLen).foldlM (fun adu i => do
    let byte ← rx.load i
    adu.store i byte) adu
  let rx ← dropRxBytes rx frameLen
  return ⟨some frameLen, adu, rx⟩

-- No result as long as the loop has not stopped.
def extractRequestFrame (rounds : Nat) (rx adu : Object UInt8) (aduCap : Nat)
    : Option (Except Fault Extracted) :=
  (Round.loop (resyncRound aduCap) rounds rx).map fun
    | .error fault => .error fault
    | .ok (none, rx) => .ok ⟨none, adu, rx⟩
    | .ok (some frameLen, rx) => copyFrame rx adu frameLen

end Rtu.Checked
