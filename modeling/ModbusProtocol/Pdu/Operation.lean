import ModbusProtocol.Pdu.Lemmas.Codec

/-!
This module contains the client operations that both transports offer, with the arguments their
API admits: the request each of them builds and what it does with the response.
-/

open Modbus

namespace Pdu

-- The argument checks of the client API are fields here, an operation that fails them is never built.
inductive Operation where
  | readBits (fc : UInt8) (addr qty : UInt16)
      (hfc : fc = funcReadCoils ∨ fc = funcReadDiscreteInputs)
      (hpos : 1 ≤ qty.toNat) (hmax : qty.toNat ≤ maxReadBits)
  | readRegisters (fc : UInt8) (addr qty : UInt16)
      (hfc : fc = funcReadHoldingRegisters ∨ fc = funcReadInputRegisters)
      (hpos : 1 ≤ qty.toNat) (hmax : qty.toNat ≤ maxReadRegisters)
  | writeSingleCoil (addr : UInt16) (value : UInt8)
  | writeSingleRegister (addr value : UInt16)
  | writeMultipleCoils (addr qty : UInt16) (values : Mem UInt8)
      (hpos : 1 ≤ qty.toNat) (hmax : qty.toNat ≤ maxWriteBits)
  | writeMultipleRegisters (addr qty : UInt16) (data : Mem UInt16)
      (hpos : 1 ≤ qty.toNat) (hmax : qty.toNat ≤ maxWriteRegisters)

theorem coils_bits
    : funcReadCoils = funcReadCoils ∨ funcReadCoils = funcReadDiscreteInputs :=
  .inl rfl

theorem discreteInputs_bits
    : funcReadDiscreteInputs = funcReadCoils ∨ funcReadDiscreteInputs = funcReadDiscreteInputs :=
  .inr rfl

theorem holding_registers
    : funcReadHoldingRegisters = funcReadHoldingRegisters ∨
        funcReadHoldingRegisters = funcReadInputRegisters :=
  .inl rfl

theorem input_registers
    : funcReadInputRegisters = funcReadHoldingRegisters ∨
        funcReadInputRegisters = funcReadInputRegisters :=
  .inr rfl

-- The output buffers of the read operations.
structure Out where
  registers : Mem UInt16
  bits : Mem UInt8

namespace Operation

def build (op : Operation) (pdu : Mem UInt8) : Mem UInt8 × Nat :=
  match op with
  | .readBits fc addr qty .. | .readRegisters fc addr qty .. => buildRead pdu fc addr qty
  | .writeSingleCoil addr value =>
    buildWriteSingle pdu funcWriteSingleCoil addr (if value ≠ 0 then coilOn else coilOff)
  | .writeSingleRegister addr value => buildWriteSingle pdu funcWriteSingleRegister addr value
  | .writeMultipleCoils addr qty values .. => buildWriteCoils pdu addr qty values
  | .writeMultipleRegisters addr qty data .. => buildWriteRegisters pdu addr qty data

def decode (op : Operation) (resp : Mem UInt8) (out : Out) : Out :=
  match op with
  | .readBits _ _ qty .. => { out with bits := getBits resp qty out.bits }
  | .readRegisters _ _ qty .. => { out with registers := getRegisters resp qty out.registers }
  | _ => out

def fc : Operation → UInt8
  | .readBits fc .. | .readRegisters fc .. => fc
  | .writeSingleCoil .. => funcWriteSingleCoil
  | .writeSingleRegister .. => funcWriteSingleRegister
  | .writeMultipleCoils .. => funcWriteMultipleCoils
  | .writeMultipleRegisters .. => funcWriteMultipleRegisters

def addr : Operation → UInt16
  | .readBits _ addr .. | .readRegisters _ addr .. | .writeSingleCoil addr .. |
    .writeSingleRegister addr .. | .writeMultipleCoils addr .. | .writeMultipleRegisters addr .. =>
    addr

-- The quantity field of the request, which holds the value in the single writes.
def qty : Operation → UInt16
  | .readBits _ _ qty .. | .readRegisters _ _ qty .. | .writeMultipleCoils _ qty .. |
    .writeMultipleRegisters _ qty .. => qty
  | .writeSingleCoil _ value => if value ≠ 0 then coilOn else coilOff
  | .writeSingleRegister _ value => value

-- What follows the fixed part of the request.
def payload : Operation → List UInt8
  | .writeMultipleCoils _ qty values .. =>
    UInt8.ofNat (bitByteCount qty) :: Bits.pack (boolsOf (values.slice 0 qty.toNat))
  | .writeMultipleRegisters _ qty data .. =>
    UInt8.ofNat (qty.toNat * 2) :: (data.slice 0 qty.toNat).flatMap u16Bytes
  | _ => []

def bytes (op : Operation) : List UInt8 :=
  header op.fc op.addr op.qty ++ op.payload

theorem length_header (fc : UInt8) (addr qty : UInt16)
    : (header fc addr qty).length = 5 := by
  rfl

theorem build_eq_write (op : Operation) (pdu : Mem UInt8)
    : op.build pdu = (pdu.write 0 op.bytes, op.bytes.length) := by
  unfold build bytes
  rw [List.length_append, length_header]
  cases op with
  | readBits fc addr qty hfc hpos hmax => exact buildRead_eq pdu fc addr qty
  | readRegisters fc addr qty hfc hpos hmax => exact buildRead_eq pdu fc addr qty
  | writeSingleCoil addr value => exact buildRead_eq pdu _ addr _
  | writeSingleRegister addr value => exact buildRead_eq pdu _ addr value
  | writeMultipleCoils addr qty values hpos hmax =>
    simp only [buildWriteCoils_eq]
    simp [payload, fc, Operation.addr, Operation.qty, boolsOf, bitByteCount]
    omega
  | writeMultipleRegisters addr qty data hpos hmax =>
    simp only [buildWriteRegisters_eq]
    simp [payload, fc, Operation.addr, Operation.qty]
    omega

theorem fc_supported (op : Operation)
    : isRead op.fc = true ∨ isWrite op.fc = true := by
  cases op with
  | readBits fc addr qty hfc hpos hmax => rcases hfc with rfl | rfl <;> simp [fc, isRead]
  | readRegisters fc addr qty hfc hpos hmax => rcases hfc with rfl | rfl <;> simp [fc, isRead]
  | _ => simp [fc, isWrite]

theorem five_le_length (op : Operation)
    : 5 ≤ op.bytes.length := by
  unfold bytes
  rw [List.length_append, length_header]
  omega

theorem length_bytes_le (op : Operation)
    : op.bytes.length ≤ maxPduLength := by
  unfold bytes
  rw [List.length_append, length_header]
  cases op with
  | writeMultipleCoils addr qty values hpos hmax =>
    simp [payload, boolsOf] at hmax ⊢
    omega
  | writeMultipleRegisters addr qty data hpos hmax =>
    simp [payload] at hmax ⊢
    omega
  | _ => simp [payload]

theorem take_bytes (op : Operation)
    : op.bytes.take 5 = header op.fc op.addr op.qty := by
  rfl

theorem slice_build (op : Operation) (pdu : Mem UInt8)
    : (op.build pdu).1.slice 0 5 = header op.fc op.addr op.qty := by
  have hlen := op.five_le_length
  rw [op.build_eq_write, Mem.slice_write_prefix _ _ _ _ hlen, op.take_bytes]

theorem slice_built (op : Operation) (pdu : Mem UInt8)
    : (op.build pdu).1.slice 0 (op.build pdu).2 = op.bytes := by
  rw [op.build_eq_write]
  exact Mem.slice_write_same pdu 0 op.bytes

end Operation

end Pdu
