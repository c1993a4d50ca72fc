import ModbusProtocol.Rtu.Impl.Bus

/-!
This module contains the timing of `modbus_rtu.c` and `modbus_rtu_client.c` in the integer types of the
source. Unsigned arithmetic wraps around. Signed arithmetic has no result that is outside of its type.
-/

namespace Rtu.Word

open Client

-- A result of signed arithmetic with 64 bits.
def int64 (i : Int) : Option Int :=
  if -2 ^ 63 ≤ i ∧ i < 2 ^ 63 then some i else none

def charBits (dataBits stopBits : UInt8) (parity : Parity) : UInt32 :=
  1 + dataBits.toUInt32 + stopBits.toUInt32 + if parity ≠ .none then 1 else 0

-- What is divided by the baud rate, which rounds the division up.
def t35Dividend (charBits baudRate : UInt32) : UInt64 :=
  charBits.toUInt64 * 3500000 + baudRate.toUInt64 - 1

-- `mb_rtu_t35_us`
def t35Us (serial : SerialConfig) : UInt32 :=
  let baudRate := effectiveBaudRate serial.baudRate
  if baudRate > t35FixedBaudAbove then
    t35FixedUs
  else
    let charBits := charBits (effectiveDataBits serial.dataBits) (effectiveStopBits serial.stopBits)
      serial.parity
    (t35Dividend charBits baudRate / baudRate.toUInt64).toUInt32

def requiredUs (bus : SharedBus) (unitId : UInt8) (interFrameUs handoffMs : UInt32) : UInt64 :=
  if bus.lastUnitId ≠ unitId ∧ handoffMs.toUInt64 * 1000 > interFrameUs.toUInt64 then
    handoffMs.toUInt64 * 1000
  else
    interFrameUs.toUInt64

def elapsedUs (now last : Timespec) : Option Int := do
  let sec ← int64 (now.sec - last.sec)
  let us ← int64 (sec * 1000000)
  let nsec ← int64 (now.nsec - last.nsec)
  int64 (us + nsec.tdiv 1000)

-- What `wait_bus_silence` passes to `sleep_us` when the clock reads this time, and 0 if it does not sleep.
def waitBusSilence (bus : SharedBus) (now : Timespec) (unitId : UInt8)
    (interFrameUs handoffMs : UInt32) : Option UInt64 :=
  if !bus.hasLastTransaction then
    some 0
  else
    let requiredUs := requiredUs bus unitId interFrameUs handoffMs
    if requiredUs = 0 then
      some 0
    else do
      let elapsedUs ← elapsedUs now bus.lastReleaseTime
      if elapsedUs ≥ 0 ∧ UInt64.ofNat elapsedUs.toNat < requiredUs then
        some (requiredUs - UInt64.ofNat elapsedUs.toNat)
      else
        some 0

-- The delay of `sleep_us`
def delay (us : UInt64) : Timespec :=
  ⟨(us / 1000000).toNat, (us % 1000000 * 1000).toNat⟩

end Rtu.Word
