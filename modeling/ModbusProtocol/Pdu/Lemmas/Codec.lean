import ModbusProtocol.Data.Bits
import ModbusProtocol.Pdu.Impl.Codec

/-!
This module contains what the encoders store and what the decoders read, as lists of bytes.
-/

open Modbus

namespace Pdu

def u16Bytes (v : UInt16) : List UInt8 :=
  [(v >>> 8).toUInt8, (v &&& 0xFF).toUInt8]

def u16Of (hi lo : UInt8) : UInt16 :=
  (hi.toUInt16 <<< 8) ||| lo.toUInt16

-- The function code, address and quantity (or value) that every request starts with.
def header (fc : UInt8) (addr qty : UInt16) : List UInt8 :=
  fc :: (u16Bytes addr ++ u16Bytes qty)

def registersOf : List UInt8 → List UInt16
  | hi :: lo :: bytes => u16Of hi lo :: registersOf bytes
  | _ => []

def boolsOf (values : List UInt8) : List Bool :=
  values.map (· != 0)

@[simp]
theorem length_u16Bytes (v : UInt16)
    : (u16Bytes v).length = 2 := by
  rfl

theorem toNat_u16Of (hi lo : UInt8)
    : (u16Of hi lo).toNat = hi.toNat * 256 + lo.toNat := by
  unfold u16Of
  have hhi := hi.toNat_lt
  have hlo := lo.toNat_lt
  have hor : hi.toNat <<< 8 ||| lo.toNat = hi.toNat <<< 8 + lo.toNat :=
    (Nat.shiftLeft_add_eq_or_of_lt hlo _).symm
  rw [Nat.shiftLeft_eq] at hor
  simp [Nat.shiftLeft_eq]
  rw [Nat.mod_eq_of_lt (by omega), hor]

theorem toNat_high (v : UInt16)
    : (v >>> 8).toUInt8.toNat = v.toNat / 256 := by
  have := v.toNat_lt
  simp [Nat.shiftRight_eq_div_pow]
  omega

theorem toNat_low (v : UInt16)
    : (v &&& 0xFF).toUInt8.toNat = v.toNat % 256 := by
  simp
  rw [show (255 : Nat) = 2 ^ 8 - 1 by rfl]
  rw [Nat.and_two_pow_sub_one_eq_mod]
  omega

@[simp]
theorem u16Of_u16Bytes (v : UInt16)
    : u16Of (v >>> 8).toUInt8 (v &&& 0xFF).toUInt8 = v := by
  apply UInt16.toNat_inj.mp
  rw [toNat_u16Of, toNat_high, toNat_low]
  omega

theorem u16Bytes_u16Of (hi lo : UInt8)
    : u16Bytes (u16Of hi lo) = [hi, lo] := by
  have hlo := lo.toNat_lt
  unfold u16Bytes
  congr 1
  . apply UInt8.toNat_inj.mp
    rw [toNat_high, toNat_u16Of]
    omega
  . congr 1
    apply UInt8.toNat_inj.mp
    rw [toNat_low, toNat_u16Of]
    omega

theorem u16Bytes_injective {v w : UInt16} (h : u16Bytes v = u16Bytes w)
    : v = w := by
  simp only [u16Bytes, List.cons.injEq, and_true] at h
  rw [← u16Of_u16Bytes v, ← u16Of_u16Bytes w]
  rw [h.1, h.2]

theorem getU16_eq (p : Mem UInt8)
    : getU16 p = u16Of (p 0) (p 1) := by
  rfl

theorem putU16_eq_write (p : Mem UInt8) (v : UInt16)
    : putU16 p v = p.write 0 (u16Bytes v) := by
  unfold putU16
  rw [Mem.set_eq_write, Mem.set_eq_write]
  rw [Mem.write_write _ _ _ (by rfl)]
  rfl

theorem registersOf_u16Bytes_append (v : UInt16) (bytes : List UInt8)
    : registersOf (u16Bytes v ++ bytes) = v :: registersOf bytes := by
  unfold u16Bytes
  rw [List.cons_append, List.cons_append, List.nil_append]
  rw [registersOf, u16Of_u16Bytes]

theorem registersOf_flatMap (data : List UInt16)
    : registersOf (data.flatMap u16Bytes) = data := by
  induction data with
  | nil => rfl
  | cons v data ih =>
    rw [List.flatMap_cons, registersOf_u16Bytes_append]
    rw [ih]

theorem registersOf_slice (m : Mem UInt8) (off n : Nat)
    : registersOf (m.slice off (n * 2))
        =
      (List.range n).map fun i => getU16 (m.shift (off + i * 2)) := by
  induction n generalizing off with
  | zero => simp [registersOf]
  | succ n ih =>
    rw [show (n + 1) * 2 = n * 2 + 1 + 1 by omega]
    rw [Mem.slice_succ, Mem.slice_succ]
    unfold registersOf
    rw [ih]
    rw [List.range_succ_eq_map]
    simp [getU16_eq, Nat.add_mul, Nat.add_assoc, Nat.add_comm, Nat.add_left_comm]

theorem flatMap_registersOf (bytes : List UInt8) (n : Nat) (h : bytes.length = n * 2)
    : (registersOf bytes).flatMap u16Bytes = bytes ∧ (registersOf bytes).length = n := by
  induction n generalizing bytes with
  | zero =>
    have : bytes = [] := List.eq_nil_of_length_eq_zero (by omega)
    subst this
    simp [registersOf]
  | succ n ih =>
    cases bytes with
    | nil => simp at h
    | cons hi bytes =>
      cases bytes with
      | nil =>
        simp at h
        omega
      | cons lo bytes =>
        simp only [List.length_cons] at h
        specialize ih bytes (by omega)
        simp [registersOf, u16Bytes_u16Of, ih]

theorem putRegisters_eq_write (p : Mem UInt8) (qty : UInt16) (data : Mem UInt16)
    : putRegisters p qty data = p.write 0 ((data.slice 0 qty.toNat).flatMap u16Bytes) := by
  unfold putRegisters
  simp only [putU16_eq_write, Mem.splice_write_shift]
  have := Mem.foldl_write (fun i => u16Bytes (data i)) 2 (by simp) p 0 qty.toNat
  simp only [Nat.zero_add, Nat.mul_comm 2] at this
  simp only [Nat.add_zero, this]
  simp [Mem.slice, List.flatMap_map]

theorem buildRead_eq (pdu : Mem UInt8) (fc : UInt8) (addr qty : UInt16)
    : buildRead pdu fc addr qty
        =
      (pdu.write 0 (header fc addr qty), 5) := by
  unfold buildRead
  simp only [Mem.set_eq_write, putU16_eq_write, Mem.splice_write_shift, offsetFc, offsetAddr,
    offsetQty, fixedReqLen]
  rw [Mem.write_write _ _ _ (by rfl)]
  rw [Mem.write_write _ _ _ (by rfl)]
  rfl

theorem buildWriteRegisters_eq (pdu : Mem UInt8) (addr qty : UInt16) (data : Mem UInt16)
    : buildWriteRegisters pdu addr qty data
        =
      (pdu.write 0 (header funcWriteMultipleRegisters addr qty
        ++ UInt8.ofNat (qty.toNat * 2) :: (data.slice 0 qty.toNat).flatMap u16Bytes),
        6 + qty.toNat * 2) := by
  unfold buildWriteRegisters
  simp only [buildRead_eq, Mem.set_eq_write, putRegisters_eq_write, Mem.splice_write_shift,
    offsetByteCount, offsetWriteData, Nat.add_zero]
  rw [Mem.write_write _ _ _ (by rfl)]
  rw [Mem.write_write _ _ _ (by rfl)]
  rfl

theorem packBits_step (out : Mem UInt8) (i j k : Nat) (hk : k < 8)
    : (out.set (i / 8) (out (i / 8) ||| (1 <<< UInt8.ofNat (i % 8))) j).toBitVec.getLsbD k
        =
      ((out j).toBitVec.getLsbD k || decide (8 * j + k = i)) := by
  unfold Mem.set
  rw [Function.update_apply]
  split
  . next h =>
    have hbit := Bits.getLsbD_one_shiftLeft (i % 8) k (by omega) hk
    rw [UInt8.toBitVec_or, BitVec.getLsbD_or, hbit, h]
    congr 2
    apply propext
    constructor
    all_goals
      intro
      omega
  . next h =>
    have : 8 * j + k ≠ i := by omega
    simp [this]

theorem getLsbD_packBits_go (values out : Mem UInt8) (n j k : Nat) (hk : k < 8)
    : ((List.range n).foldl (fun out i =>
        if values i ≠ 0 then
          out.set (i / 8) (out (i / 8) ||| (1 <<< UInt8.ofNat (i % 8)))
        else
          out) out j).toBitVec.getLsbD k
        =
      ((out j).toBitVec.getLsbD k || (decide (8 * j + k < n) && (values (8 * j + k) != 0))) := by
  induction n with
  | zero => simp
  | succ n ih =>
    rw [List.range_succ, List.foldl_append, List.foldl_cons, List.foldl_nil]
    generalize hacc : (List.range n).foldl _ out = acc
    rw [hacc] at ih
    split
    . next h =>
      rw [packBits_step _ _ _ _ hk, ih]
      by_cases heq : 8 * j + k = n
      . simp [heq, h]
      . have : 8 * j + k < n ↔ 8 * j + k < n + 1 := by omega
        simp [heq, this]
    . next h =>
      rw [ih]
      by_cases heq : 8 * j + k = n
      . simp at h
        simp [heq, h]
      . have : 8 * j + k < n ↔ 8 * j + k < n + 1 := by omega
        simp [this]

theorem packBits_eq_write (values : Mem UInt8) (qty : UInt16) (out : Mem UInt8)
    : packBits values qty out
        =
      out.write 0 (Bits.pack (boolsOf (values.slice 0 qty.toNat))) := by
  unfold packBits
  funext j
  apply Bits.byte_eq_of_bits
  intro k hk
  rw [getLsbD_packBits_go _ _ _ _ _ hk]
  by_cases hj : j < bitByteCount qty
  . have hj' : j < (Bits.pack (boolsOf (values.slice 0 qty.toNat))).length := by
      simpa [boolsOf, bitByteCount] using hj
    have hget := Bits.getLsbD_pack (boolsOf (values.slice 0 qty.toNat)) j k (by simpa using hj') hk
    rw [← Nat.zero_add j, Mem.write_getElem _ _ _ _ hj', Mem.write_getElem _ _ _ _ (by simpa using hj)]
    simp only [List.getD_eq_getElem?_getD, List.getElem?_eq_getElem hj', Option.getD_some] at hget
    rw [hget]
    by_cases hlt : 8 * j + k < qty.toNat
    . simp [boolsOf, hlt, Mem.getElem_slice]
    . simp [boolsOf, hlt, Mem.slice]
  . have hbits : qty.toNat ≤ 8 * j + k := by
      unfold bitByteCount at hj
      omega
    have hlt : ¬8 * j + k < qty.toNat := by omega
    rw [Mem.write_of_ge _ _ (by simpa using hj)]
    rw [Mem.write_of_ge _ _ (by simpa [boolsOf, bitByteCount] using hj)]
    simp [hlt]

theorem unpackBits_eq_write (packed : Mem UInt8) (qty : UInt16) (out : Mem UInt8)
    : unpackBits packed qty out
        =
      out.write 0
        ((Bits.unpack (packed.slice 0 (bitByteCount qty)) qty.toNat).map Bool.toUInt8) := by
  unfold unpackBits
  rw [Mem.foldl_set]
  congr 1
  unfold Bits.unpack
  rw [List.map_map]
  apply List.map_congr_left
  intro i hi
  rw [List.mem_range] at hi
  have hlt : i / 8 < bitByteCount qty := by
    unfold bitByteCount
    omega
  rw [Bits.shiftRight_and_one _ _ (by omega)]
  simp [Bits.get, Mem.getElem?_slice _ _ _ _ hlt]

theorem buildWriteCoils_eq (pdu : Mem UInt8) (addr qty : UInt16) (values : Mem UInt8)
    : buildWriteCoils pdu addr qty values
        =
      (pdu.write 0 (header funcWriteMultipleCoils addr qty
        ++ UInt8.ofNat (bitByteCount qty) :: Bits.pack (boolsOf (values.slice 0 qty.toNat))),
        6 + bitByteCount qty) := by
  unfold buildWriteCoils
  simp only [buildRead_eq, Mem.set_eq_write, packBits_eq_write, Mem.splice_write_shift,
    offsetByteCount, offsetWriteData, Nat.add_zero]
  rw [Mem.write_write _ _ _ (by rfl)]
  rw [Mem.write_write _ _ _ (by rfl)]
  rfl

theorem getRegisters_eq_write (resp : Mem UInt8) (qty : UInt16) (out : Mem UInt16)
    : getRegisters resp qty out = out.write 0 (registersOf (resp.slice 2 (qty.toNat * 2))) := by
  unfold getRegisters
  rw [Mem.foldl_set, registersOf_slice]

theorem getBits_eq_write (resp : Mem UInt8) (qty : UInt16) (out : Mem UInt8)
    : getBits resp qty out
        =
      out.write 0
        ((Bits.unpack (resp.slice 2 (bitByteCount qty)) qty.toNat).map Bool.toUInt8) := by
  unfold getBits
  rw [unpackBits_eq_write]
  simp

end Pdu
