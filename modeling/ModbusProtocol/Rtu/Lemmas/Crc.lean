import ModbusProtocol.Data.Lfsr
import ModbusProtocol.Rtu.Impl.Crc
import ModbusProtocol.Pdu.Lemmas.Codec

/-!
This module contains the CRC as a function of the bytes of a frame, and why a frame with one corrupted
byte is rejected: every step of the register can be undone.
-/

open Modbus

namespace Rtu

def crcFrom (crc : UInt16) (bytes : List UInt8) : UInt16 :=
  bytes.foldl crcByte crc

def crcOf (bytes : List UInt8) : UInt16 :=
  crcFrom 0xFFFF bytes

-- low byte first
def crcBytes (crc : UInt16) : List UInt8 :=
  [(crc &&& 0xFF).toUInt8, (crc >>> 8).toUInt8]

def withCrc (bytes : List UInt8) : List UInt8 :=
  bytes ++ crcBytes (crcOf bytes)

def CrcValid (frame : List UInt8) : Prop :=
  ∃ bytes, frame = withCrc bytes

theorem and_one_ne_zero (crc : UInt16)
    : (crc &&& 0x0001 ≠ 0) ↔ crc.toBitVec.getLsbD 0 = true := by
  have hbit : (crc &&& 0x0001) = if crc.toBitVec.getLsbD 0 then 1 else 0 := by
    apply UInt16.eq_of_toBitVec_eq
    rw [UInt16.toBitVec_and]
    have := BitVec.and_one_eq_setWidth_ofBool_getLsbD (x := crc.toBitVec)
    simp only [UInt16.toBitVec_ofNat] at this ⊢
    rw [this]
    cases crc.toBitVec.getLsbD 0 with
    | false => rfl
    | true => rfl
  rw [hbit]
  cases crc.toBitVec.getLsbD 0 with
  | false => simp
  | true => simp

theorem toBitVec_crcBit (crc : UInt16)
    : (crcBit crc).toBitVec = Lfsr.step 0xA001#16 crc.toBitVec := by
  unfold crcBit Lfsr.step
  split
  . next h =>
    rw [and_one_ne_zero] at h
    rw [h]
    simp
  . next h =>
    rw [and_one_ne_zero, Bool.not_eq_true] at h
    rw [h]
    simp

theorem crcBit_injective {a b : UInt16} (h : crcBit a = crcBit b)
    : a = b := by
  apply UInt16.eq_of_toBitVec_eq
  apply @Lfsr.step_injective 16 0xA001#16 (by decide) (by decide)
  rw [← toBitVec_crcBit, ← toBitVec_crcBit, h]

theorem crcBits_injective {a b : UInt16} (n : Nat)
    (h : (List.range n).foldl (fun crc _ => crcBit crc) a
      = (List.range n).foldl (fun crc _ => crcBit crc) b)
    : a = b := by
  induction n with
  | zero => exact h
  | succ n ih =>
    rw [List.range_succ, List.foldl_append, List.foldl_append] at h
    exact ih (crcBit_injective h)

theorem crcByte_injective {a b : UInt16} {byte : UInt8} (h : crcByte a byte = crcByte b byte)
    : a = b := by
  have := crcBits_injective 8 h
  rwa [UInt16.xor_left_inj] at this

theorem crcByte_byte_injective {crc : UInt16} {a b : UInt8} (h : crcByte crc a = crcByte crc b)
    : a = b := by
  have := crcBits_injective 8 h
  rw [UInt16.xor_right_inj] at this
  apply UInt8.toNat_inj.mp
  have := congrArg UInt16.toNat this
  simpa using this

theorem crcFrom_injective {a b : UInt16} {bytes : List UInt8}
    (h : crcFrom a bytes = crcFrom b bytes)
    : a = b := by
  induction bytes generalizing a b with
  | nil => exact h
  | cons byte bytes ih => exact crcByte_injective (ih h)

theorem crcOf_append_cons_ne (front back : List UInt8) {a b : UInt8} (h : a ≠ b)
    : crcOf (front ++ a :: back) ≠ crcOf (front ++ b :: back) := by
  intro heq
  unfold crcOf crcFrom at heq
  rw [List.foldl_append, List.foldl_append] at heq
  exact h (crcByte_byte_injective (crcFrom_injective heq))

theorem crcBytes_eq_reverse (crc : UInt16)
    : crcBytes crc = (Pdu.u16Bytes crc).reverse := by
  rfl

theorem crcBytes_injective {a b : UInt16} (h : crcBytes a = crcBytes b)
    : a = b := by
  rw [crcBytes_eq_reverse, crcBytes_eq_reverse] at h
  exact Pdu.u16Bytes_injective (List.reverse_injective h)

@[simp]
theorem length_withCrc (bytes : List UInt8)
    : (withCrc bytes).length = bytes.length + 2 := by
  simp [withCrc, crcBytes]

theorem crcValid_iff (frame : List UInt8)
    : CrcValid frame
        ↔ 2 ≤ frame.length ∧
          frame.drop (frame.length - 2) = crcBytes (crcOf (frame.take (frame.length - 2))) := by
  constructor
  . intro ⟨bytes, h⟩
    subst h
    rw [length_withCrc]
    simp [withCrc]
  . intro ⟨hlen, h⟩
    refine ⟨frame.take (frame.length - 2), ?_⟩
    unfold withCrc
    rw [← h, List.take_append_drop]

instance (frame : List UInt8) : Decidable (CrcValid frame) :=
  decidable_of_iff _ (crcValid_iff frame).symm

-- A frame with exactly one wrong byte does not pass.
theorem not_crcValid_of_one_byte (front back : List UInt8) {a b : UInt8} (hne : a ≠ b)
    (h : CrcValid (front ++ a :: back))
    : ¬CrcValid (front ++ b :: back) := by
  intro h'
  rw [crcValid_iff] at h h'
  obtain ⟨hlen, h⟩ := h
  obtain ⟨-, h'⟩ := h'
  simp only [List.length_append, List.length_cons] at hlen h h'
  generalize hk : front.length + (back.length + 1) - 2 = k at h h'
  by_cases hfront : front.length < k
  . -- the wrong byte is covered by the CRC
    obtain ⟨d, rfl⟩ := Nat.exists_eq_add_of_lt hfront
    simp only [Nat.add_assoc, List.take_append, List.drop_append, List.take_succ_cons,
      List.drop_succ_cons, Nat.add_sub_cancel_left] at h h'
    have hcrc := crcBytes_injective (h.symm.trans h')
    simp only [List.take_of_length_le (show front.length ≤ front.length + (d + 1) by omega)] at hcrc
    exact crcOf_append_cons_ne front _ hne hcrc
  . -- the wrong byte is one of the two that hold the CRC
    have hle : k ≤ front.length := by omega
    rw [List.take_append_of_le_length hle, List.drop_append_of_le_length hle] at h h'
    have htail := h.trans h'.symm
    rw [List.append_cancel_left_eq] at htail
    injection htail with heq
    exact hne heq

theorem crc16_eq (data : Mem UInt8) (length : Nat)
    : crc16 data length = crcOf (data.slice 0 length) := by
  unfold crc16 crcOf crcFrom Mem.slice
  rw [List.foldl_map]
  simp

theorem validateCrc_iff (frame : Mem UInt8) (frameLen : Nat)
    : validateCrc frame frameLen = true ↔ CrcValid (frame.slice 0 frameLen) := by
  rw [crcValid_iff, Mem.length_slice]
  unfold validateCrc
  dsimp only [rtuCrcLen]
  split
  . next hshort =>
    have hno : ¬2 ≤ frameLen := by omega
    simp [hno]
  . next hlong =>
    rw [Mem.take_slice _ _ _ _ (by omega), Mem.drop_slice _ _ _ _ (by omega), crc16_eq]
    have htwo : frameLen - (frameLen - 2) = 2 := by omega
    rw [htwo, Nat.zero_add, Mem.slice_succ, Mem.slice_succ, Mem.slice_zero]
    generalize crcOf (frame.slice 0 (frameLen - 2)) = crc
    rw [UInt16.or_comm, decide_eq_true_iff]
    constructor
    . intro heq
      refine ⟨by omega, ?_⟩
      rw [heq, crcBytes_eq_reverse]
      exact congrArg List.reverse (Pdu.u16Bytes_u16Of _ _).symm
    . intro ⟨_, heq⟩
      apply Pdu.u16Bytes_injective
      refine Eq.trans ?_ (Pdu.u16Bytes_u16Of _ _).symm
      rw [crcBytes_eq_reverse] at heq
      rw [← List.reverse_reverse (Pdu.u16Bytes crc), ← heq]
      rfl

theorem appendCrc_eq (frame : Mem UInt8) (frameLen frameCap : Nat) (h : frameLen + 2 ≤ frameCap)
    : appendCrc frame frameLen frameCap
        =
      some (frame.write frameLen (crcBytes (crcOf (frame.slice 0 frameLen)))) := by
  unfold appendCrc
  rw [if_neg (by simp; omega)]
  simp only [Mem.set_eq_write, crc16_eq]
  rw [Mem.write_write _ _ _ (by rfl)]
  rfl

theorem appendCrc_write (frame : Mem UInt8) (bytes : List UInt8) {frameCap : Nat}
    (h : bytes.length + 2 ≤ frameCap)
    : appendCrc (frame.write 0 bytes) bytes.length frameCap
        =
      some (frame.write 0 (withCrc bytes)) := by
  rw [appendCrc_eq _ _ _ h, Mem.slice_write_same]
  rw [Mem.write_write _ _ _ (by simp)]
  rfl

theorem slice_appendCrc (frame : Mem UInt8) (bytes : List UInt8)
    (h : frame.slice 0 bytes.length = bytes)
    : (frame.write bytes.length (crcBytes (crcOf bytes))).slice 0 (bytes.length + 2)
        =
      withCrc bytes := by
  rw [Mem.slice_add, Mem.slice_write_of_disjoint _ _ _ _ _ (by simp), h]
  unfold withCrc
  congr 1
  rw [Nat.zero_add]
  exact Mem.slice_write_same frame bytes.length (crcBytes (crcOf bytes))

end Rtu
