import ModbusProtocol.Posix.Resource
import ModbusProtocol.Rtu.Impl.Server

/-!
This module contains the serial settings of `modbus_rtu.c`, what `mb_rtu_open` and `mb_rtu_close` acquire
and release, and the timing that follows from the settings.
-/

open Posix

namespace Rtu

inductive Parity where
  | none
  | even
  | odd
  deriving DecidableEq, Repr

inductive Rs485Mode where
  | none
  | rtsOnSend
  | rtsAfterSend
  deriving DecidableEq, Repr

structure SerialConfig where
  device : String
  baudRate : UInt32
  dataBits : UInt8
  stopBits : UInt8
  parity : Parity
  rs485Mode : Rs485Mode
  deriving DecidableEq, Repr

@[simp] abbrev t35FixedBaudAbove : UInt32 := 19200
@[simp] abbrev t35FixedUs : UInt32 := 1750

def effectiveBaudRate (baudRate : UInt32) : UInt32 :=
  if baudRate = 0 then 9600 else baudRate

def effectiveDataBits (dataBits : UInt8) : UInt8 :=
  if dataBits = 0 then 8 else dataBits

def effectiveStopBits (stopBits : UInt8) : UInt8 :=
  if stopBits = 0 then 1 else stopBits

-- `baud_to_speed` has a speed for it
def supportedBaudRate (baudRate : UInt32) : Bool :=
  baudRate ∈ [0, 9600, 1200, 2400, 4800, 19200, 38400, 57600, 115200, 230400, 460800]

-- What the system returns from the calls of `mb_rtu_open`.
structure OpenEnv where
  -- negative when it fails
  fd : Int
  -- whether the calls of `configure_serial` and `configure_rs485` succeed
  configured : Bool
  deriving DecidableEq, Repr

def configureSerial (serial : SerialConfig) (env : OpenEnv) : Bool :=
  let dataBits := effectiveDataBits serial.dataBits
  let stopBits := effectiveStopBits serial.stopBits
  if !supportedBaudRate serial.baudRate ∨ dataBits ≠ 7 ∧ dataBits ≠ 8 ∨
      stopBits ≠ 1 ∧ stopBits ≠ 2 then
    false
  else
    env.configured

-- `mb_rtu_open`, whose output parameter is set only on success
def openPort (serial : SerialConfig) (env : OpenEnv) : Option Int × List Act :=
  if serial.device = "" then
    (none, [])
  else if env.fd < 0 then
    (none, [])
  else if !configureSerial serial env then
    (none, [.acquire (.descriptor env.fd), .release (.descriptor env.fd)])
  else
    (some env.fd, [.acquire (.descriptor env.fd)])

-- `mb_rtu_close`
def closePort (fd : Int) : Int × List Act :=
  if fd ≥ 0 then
    (-1, [.release (.descriptor fd)])
  else
    (fd, [])

def charBits (dataBits stopBits : UInt8) (parity : Parity) : Nat :=
  1 + dataBits.toNat + stopBits.toNat + if parity ≠ .none then 1 else 0

def t35Us (serial : SerialConfig) : UInt32 :=
  let baudRate := effectiveBaudRate serial.baudRate
  if baudRate > t35FixedBaudAbove then
    t35FixedUs
  else
    let charBits := charBits (effectiveDataBits serial.dataBits) (effectiveStopBits serial.stopBits)
      serial.parity
    UInt32.ofNat ((charBits * 3500000 + baudRate.toNat - 1) / baudRate.toNat)

end Rtu
