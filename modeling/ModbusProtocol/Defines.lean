/-!
This module contains the function codes, framing constants and exception codes of
`modbus_defines.h`.
-/

namespace Modbus

@[simp] abbrev funcReadCoils : UInt8 := 0x01
@[simp] abbrev funcReadDiscreteInputs : UInt8 := 0x02
@[simp] abbrev funcReadHoldingRegisters : UInt8 := 0x03
@[simp] abbrev funcReadInputRegisters : UInt8 := 0x04
@[simp] abbrev funcWriteSingleCoil : UInt8 := 0x05
@[simp] abbrev funcWriteSingleRegister : UInt8 := 0x06
@[simp] abbrev funcWriteMultipleCoils : UInt8 := 0x0F
@[simp] abbrev funcWriteMultipleRegisters : UInt8 := 0x10

@[simp] abbrev maxPduLength : Nat := 253

@[simp] abbrev tcpMbapHeaderLen : Nat := 6
@[simp] abbrev tcpMaxAduLength : Nat := 260

@[simp] abbrev rtuBroadcastAddress : UInt8 := 0x00
@[simp] abbrev rtuCrcLen : Nat := 2
@[simp] abbrev rtuMinReqLength : Nat := 8
@[simp] abbrev rtuMaxAduLength : Nat := 256
@[simp] abbrev rtuDefaultTimeoutMs : Nat := 1000

@[simp] abbrev maxReadRegisters : Nat := 125
@[simp] abbrev maxWriteRegisters : Nat := 123
@[simp] abbrev maxReadBits : Nat := 2000
@[simp] abbrev maxWriteBits : Nat := 1968

@[simp] abbrev coilOn : UInt16 := 0xFF00
@[simp] abbrev coilOff : UInt16 := 0x0000

@[simp] abbrev exceptionFlag : UInt8 := 0x80

@[simp] abbrev exIllegalFunction : UInt8 := 0x01
@[simp] abbrev exIllegalDataAddress : UInt8 := 0x02
@[simp] abbrev exIllegalDataValue : UInt8 := 0x03
@[simp] abbrev exServerDeviceFailure : UInt8 := 0x04
@[simp] abbrev exAcknowledge : UInt8 := 0x05
@[simp] abbrev exServerDeviceBusy : UInt8 := 0x06
@[simp] abbrev exMemoryParityError : UInt8 := 0x08
@[simp] abbrev exGatewayPathUnavailable : UInt8 := 0x0A
@[simp] abbrev exGatewayTargetFailed : UInt8 := 0x0B

end Modbus
