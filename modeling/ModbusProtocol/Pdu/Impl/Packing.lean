import ModbusProtocol.Data.Counter
import ModbusProtocol.Pdu.Impl.Codec

/-!
This module contains the packing of bits of `modbus_pdu.c` once more, with the counters, the indices and the
shifts in the integer types that they have there.
-/

namespace Pdu.Machine

def bitByteCount (qty : UInt16) : UInt64 :=
  (qty.toUInt64 + 7) / 8

def packBits (values : Mem UInt8) (qty : UInt16) (out : Mem UInt8) : Mem UInt8 :=
  let out := out.write 0 (List.replicate (bitByteCount qty).toNat 0)
  Counter.loop qty (fun out i =>
    if values i.toNat ≠ 0 then
      let index := (i.toUInt32 / 8).toNat
      out.set index (out index ||| ((1 : UInt32) <<< (i.toUInt32 % 8)).toUInt8)
    else
      out) out 0

def unpackBits (packed : Mem UInt8) (qty : UInt16) (out : Mem UInt8) : Mem UInt8 :=
  Counter.loop qty (fun out i =>
    let byte := (packed (i.toUInt32 / 8).toNat).toUInt32
    out.set i.toNat ((byte >>> (i.toUInt32 % 8)) &&& 1).toUInt8) out 0

end Pdu.Machine
