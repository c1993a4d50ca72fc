import ModbusProtocol.Data.Remainder
import ModbusProtocol.Rtu.Lemmas.Detection

/-!
This module contains what the CRC-16 is: the remainder of the bytes of a frame, the lowest bit of each of
them first, after a division by the generator.
-/

open Modbus Polynomial

namespace Rtu

theorem toBitVec_crcOf (bytes : List UInt8)
    : (crcOf bytes).toBitVec = Lfsr.feed 0xA001#16 0xFFFF#16 (frameBits bytes) := by
  apply toBitVec_crcFrom

-- The constant of `mb_rtu_crc16` is the generator with its bits reflected.
theorem generator_eq
    : Lfsr.generator 0xA001#16 = (X ^ 16 + X ^ 15 + X ^ 2 + 1 : (ZMod 2)[X]) := by
  unfold Lfsr.generator Lfsr.register
  simp [Finset.sum_range_succ, Lfsr.coefficient, monomial_one_right_eq_X_pow]
  ring

theorem register_crcOf (bytes : List UInt8)
    : Lfsr.register (crcOf bytes).toBitVec
        =
      (X ^ (8 * bytes.length) * Lfsr.register 0xFFFF#16 + X ^ 16 * Lfsr.message (frameBits bytes))
        %ₘ (X ^ 16 + X ^ 15 + X ^ 2 + 1) := by
  rw [toBitVec_crcOf]
  rw [Lfsr.register_feed (by decide)]
  rw [length_frameBits, generator_eq]

theorem crcValid_iff_crcOf (frame : List UInt8)
    : CrcValid frame ↔ 2 ≤ frame.length ∧ crcOf frame = 0 := by
  rw [crcValid_iff_feed, ← toBitVec_crcOf]
  apply and_congr_right
  intro _
  exact UInt16.toBitVec_inj (b := 0)

theorem crc16_appendCrc {frame frame' : Mem UInt8} {frameLen frameCap : Nat}
    (h : appendCrc frame frameLen frameCap = some frame')
    : crc16 frame' (frameLen + 2) = 0 := by
  have hcap : frameLen + 2 ≤ frameCap := by
    apply Nat.le_of_not_lt
    intro hlt
    unfold appendCrc at h
    rw [if_pos hlt] at h
    contradiction
  rw [appendCrc_eq _ _ _ hcap] at h
  injection h with h
  have hslice := slice_appendCrc frame (frame.slice 0 frameLen) (by rw [Mem.length_slice])
  rw [Mem.length_slice, h] at hslice
  have hvalid : CrcValid (frame'.slice 0 (frameLen + 2)) := ⟨_, hslice⟩
  rw [crc16_eq]
  exact ((crcValid_iff_crcOf _).mp hvalid).2

theorem validateCrc_iff_crc16 (frame : Mem UInt8) {frameLen : Nat} (h : 2 ≤ frameLen)
    : validateCrc frame frameLen = true ↔ crc16 frame frameLen = 0 := by
  rw [validateCrc_iff, crcValid_iff_crcOf, crc16_eq, Mem.length_slice]
  constructor
  . intro hvalid
    exact hvalid.2
  . intro hzero
    exact ⟨h, hzero⟩

theorem crc16_is_remainder
    : (∀ (data : Mem UInt8) (length : Nat) (crc : UInt16),
        crc16 data length = crc ↔
          Lfsr.register crc.toBitVec
            = (X ^ (8 * length) * Lfsr.register 0xFFFF#16
                + X ^ 16 * Lfsr.message (frameBits (data.slice 0 length)))
              %ₘ (X ^ 16 + X ^ 15 + X ^ 2 + 1)) ∧
      (∀ (frame : Mem UInt8) (frameLen frameCap : Nat), frameLen + 2 ≤ frameCap →
        ∃ frame', appendCrc frame frameLen frameCap = some frame' ∧
          frame'.slice 0 frameLen = frame.slice 0 frameLen ∧ crc16 frame' (frameLen + 2) = 0) ∧
      (∀ (frame : Mem UInt8) (frameLen : Nat),
        2 ≤ frameLen → (validateCrc frame frameLen = true ↔ crc16 frame frameLen = 0)) := by
  refine ⟨?_, ?_, ?_⟩
  . intro data length crc
    have hregister := register_crcOf (data.slice 0 length)
    rw [Mem.length_slice, ← crc16_eq] at hregister
    rw [← hregister]
    constructor
    . intro heq
      rw [heq]
    . intro heq
      exact (UInt16.toBitVec_inj.mp (Lfsr.register_injective heq)).symm
  . intro frame frameLen frameCap h
    have happend := appendCrc_eq frame frameLen frameCap h
    refine ⟨_, happend, ?_, crc16_appendCrc happend⟩
    apply Mem.slice_write_of_disjoint
    omega
  . intro frame frameLen h
    apply validateCrc_iff_crc16 frame h

def knownPayload : Mem UInt8 :=
  Mem.write (fun _ => 0) 0 [0x01, 0x03, 0x00, 0x00, 0x00, 0x0A]

theorem crc16_known
    : (∃ frame, appendCrc knownPayload 6 256 = some frame ∧
        frame.slice 0 6 = [0x01, 0x03, 0x00, 0x00, 0x00, 0x0A] ∧ crc16 frame 8 = 0) ∧
      crc16 knownFrame 8 = 0 := by
  constructor
  . obtain ⟨frame, happend, hpayload, hcrc⟩ := crc16_is_remainder.2.1 knownPayload 6 256 (by decide)
    refine ⟨frame, happend, ?_, hcrc⟩
    rw [hpayload]
    decide
  . apply (crc16_is_remainder.2.2 knownFrame 8 (by decide)).mp
    decide +kernel

end Rtu
