import ModbusProtocol.Data.Mem
import ModbusProtocol.Defines

/-!
This module contains the CRC-16 of `modbus_rtu.c` and how it is put at the end of a frame.
-/

open Modbus

namespace Rtu

def crcBit (crc : UInt16) : UInt16 :=
  if crc &&& 0x0001 ≠ 0 then
    (crc >>> 1) ^^^ 0xA001
  else
    crc >>> 1

def crcByte (crc : UInt16) (byte : UInt8) : UInt16 :=
  (List.range 8).foldl (fun crc _ => crcBit crc) (crc ^^^ byte.toUInt16)

def crc16 (data : Mem UInt8) (length : Nat) : UInt16 :=
  (List.range length).foldl (fun crc i => crcByte crc (data i)) 0xFFFF

def appendCrc (frame : Mem UInt8) (frameLenWithoutCrc frameCap : Nat) : Option (Mem UInt8) :=
  if frameCap < frameLenWithoutCrc + rtuCrcLen then
    none
  else
    let crc := crc16 frame frameLenWithoutCrc
    let frame := frame.set frameLenWithoutCrc (crc &&& 0xFF).toUInt8
    some (frame.set (frameLenWithoutCrc + 1) (crc >>> 8).toUInt8)

def validateCrc (frame : Mem UInt8) (frameLen : Nat) : Bool :=
  if frameLen < rtuCrcLen then
    false
  else
    let payloadLen := frameLen - rtuCrcLen
    let expected := crc16 frame payloadLen
    let received := (frame payloadLen).toUInt16 ||| ((frame (payloadLen + 1)).toUInt16 <<< 8)
    expected = received

end Rtu
