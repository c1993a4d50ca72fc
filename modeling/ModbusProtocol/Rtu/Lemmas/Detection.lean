import ModbusProtocol.Rtu.Lemmas.Crc

/-!
This module contains the errors that the CRC-16 notices in a frame: an odd number of wrong bits, two wrong
bits, and wrong bits that lie so close together that the register holds them all.
-/

open Modbus

namespace Rtu

-- in the order in which the line carries them
def byteBits (byte : UInt8) : List Bool :=
  (List.range 8).map byte.toBitVec.getLsbD

def frameBits (bytes : List UInt8) : List Bool :=
  bytes.flatMap byteBits

@[simp]
theorem length_byteBits (byte : UInt8)
    : (byteBits byte).length = 8 := by
  simp [byteBits]

@[simp]
theorem frameBits_cons (byte : UInt8) (bytes : List UInt8)
    : frameBits (byte :: bytes) = byteBits byte ++ frameBits bytes := by
  rfl

theorem frameBits_append (bytes bytes' : List UInt8)
    : frameBits (bytes ++ bytes') = frameBits bytes ++ frameBits bytes' := by
  apply List.flatMap_append

@[simp]
theorem length_frameBits (bytes : List UInt8)
    : (frameBits bytes).length = 8 * bytes.length := by
  induction bytes with
  | nil => rfl
  | cons byte bytes ih =>
    rw [frameBits_cons, List.length_append, length_byteBits, ih, List.length_cons]
    omega

theorem word_byteBits (byte : UInt8)
    : (Lfsr.word (byteBits byte) : BitVec 16) = byte.toUInt16.toBitVec := by
  apply BitVec.eq_of_getLsbD_eq
  intro i hi
  rw [Lfsr.getLsbD_word]
  unfold byteBits
  rw [List.getD_eq_getElem?_getD, List.getElem?_map, UInt8.toBitVec_toUInt16, BitVec.getLsbD_setWidth]
  by_cases hbyte : i < 8
  . rw [List.getElem?_range hbyte]
    rfl
  . rw [List.getElem?_eq_none (by simpa using hbyte), BitVec.getLsbD_of_ge _ _ (by omega)]
    rfl

theorem toBitVec_crcByte (crc : UInt16) (byte : UInt8)
    : (crcByte crc byte).toBitVec = Lfsr.feed 0xA001#16 crc.toBitVec (byteBits byte) := by
  have hbits : ∀ n (crc : UInt16), ((List.range n).foldl (fun crc _ => crcBit crc) crc).toBitVec
      = (Lfsr.step 0xA001#16)^[n] crc.toBitVec := by
    intro n crc
    induction n with
    | zero => rfl
    | succ n ih =>
      rw [List.range_succ, List.foldl_append, Function.iterate_succ_apply', ← ih]
      apply toBitVec_crcBit
  unfold crcByte
  rw [hbits, Lfsr.feed_eq_iterate _ (by simp), word_byteBits, length_byteBits, UInt16.toBitVec_xor]

theorem toBitVec_crcFrom (crc : UInt16) (bytes : List UInt8)
    : (crcFrom crc bytes).toBitVec = Lfsr.feed 0xA001#16 crc.toBitVec (frameBits bytes) := by
  induction bytes generalizing crc with
  | nil => rfl
  | cons byte bytes ih =>
    rw [frameBits_cons, Lfsr.feed_append, ← toBitVec_crcByte]
    apply ih

theorem frameBits_crcBytes (crc : UInt16)
    : frameBits (crcBytes crc) = (List.range 16).map crc.toBitVec.getLsbD := by
  simp [crcBytes, frameBits, byteBits, List.range_succ]

theorem word_crcBytes (crc : UInt16)
    : Lfsr.word (frameBits (crcBytes crc)) = crc.toBitVec := by
  apply BitVec.eq_of_getLsbD_eq
  intro i hi
  rw [frameBits_crcBytes, Lfsr.getLsbD_word, List.getD_eq_getElem?_getD, List.getElem?_map,
    List.getElem?_range hi]
  simp [hi]

theorem crcBytes_surjective {bytes : List UInt8} (h : bytes.length = 2)
    : ∃ crc, crcBytes crc = bytes := by
  obtain ⟨low, high, rfl⟩ := List.length_eq_two.mp h
  exists Pdu.u16Of high low
  rw [crcBytes_eq_reverse, Pdu.u16Bytes_u16Of]
  rfl

-- The CRC of a frame brings the register to zero, and no other two bytes do.
theorem feed_crcBytes (bytes : List UInt8) (crc : UInt16)
    : Lfsr.feed 0xA001#16 0xFFFF#16 (frameBits (bytes ++ crcBytes crc)) = 0#16
        ↔ crcOf bytes = crc := by
  have hregister : Lfsr.feed 0xA001#16 0xFFFF#16 (frameBits bytes) = (crcOf bytes).toBitVec := by
    unfold crcOf
    rw [toBitVec_crcFrom]
    rfl
  rw [frameBits_append, Lfsr.feed_append, hregister]
  rw [Lfsr.feed_eq_zero_iff (by decide) (by decide) _ (by simp [crcBytes]), word_crcBytes]
  apply UInt16.toBitVec_inj

theorem crcValid_iff_feed (frame : List UInt8)
    : CrcValid frame
        ↔ 2 ≤ frame.length ∧ Lfsr.feed 0xA001#16 0xFFFF#16 (frameBits frame) = 0#16 := by
  constructor
  . rintro ⟨bytes, h⟩
    rw [h]
    unfold withCrc
    rw [feed_crcBytes]
    simp [crcBytes]
  . rintro ⟨hlen, h⟩
    have htail : (frame.drop (frame.length - 2)).length = 2 := by
      rw [List.length_drop]
      omega
    obtain ⟨crc, hcrc⟩ := crcBytes_surjective htail
    rw [← List.take_append_drop (frame.length - 2) frame, ← hcrc, feed_crcBytes] at h
    exists frame.take (frame.length - 2)
    unfold withCrc
    rw [h, hcrc, List.take_append_drop]

def xorBytes (bytes error : List UInt8) : List UInt8 :=
  List.zipWith (· ^^^ ·) bytes error

theorem byteBits_xor (byte error : UInt8)
    : byteBits (byte ^^^ error) = List.zipWith (· ^^ ·) (byteBits byte) (byteBits error) := by
  simp [byteBits, List.range_succ]

theorem frameBits_xorBytes {bytes error : List UInt8} (hlen : bytes.length = error.length)
    : frameBits (xorBytes bytes error)
        =
      List.zipWith (· ^^ ·) (frameBits bytes) (frameBits error) := by
  induction bytes generalizing error with
  | nil =>
    cases error with
    | nil => rfl
    | cons e error => contradiction
  | cons byte bytes ih =>
    cases error with
    | nil => contradiction
    | cons e error =>
      unfold xorBytes at ih ⊢
      rw [List.zipWith_cons_cons, frameBits_cons, frameBits_cons, frameBits_cons]
      rw [ih (Nat.succ.inj hlen), byteBits_xor, List.zipWith_append (by simp)]

-- Whether an error passes does not depend on the frame it is in.
theorem crcValid_xorBytes {frame error : List UInt8} (hlen : frame.length = error.length)
    (hvalid : CrcValid frame)
    : CrcValid (xorBytes frame error) ↔ Lfsr.feed 0xA001#16 0#16 (frameBits error) = 0#16 := by
  rw [crcValid_iff_feed] at hvalid ⊢
  obtain ⟨hmin, hzero⟩ := hvalid
  have hsame : (frameBits frame).length = (frameBits error).length := by
    rw [length_frameBits, length_frameBits, hlen]
  have hbits := Lfsr.feed_xor 0xA001#16 0xFFFF#16 0#16 hsame
  rw [← frameBits_xorBytes hlen, hzero, BitVec.zero_xor, BitVec.xor_zero] at hbits
  have hsum : 2 ≤ (xorBytes frame error).length := by
    unfold xorBytes
    rw [List.length_zipWith]
    omega
  rw [hbits]
  simp [hsum]

-- an odd number of wrong bits, two wrong bits, or wrong bits in sixteen positions next to each other
def Noticeable (error : List UInt8) : Prop :=
  (frameBits error).count true % 2 = 1 ∨
  (frameBits error).count true = 2 ∨
  (true ∈ frameBits error ∧
    ∃ start, ∀ i, (frameBits error)[i]? = some true → start ≤ i ∧ i < start + 16)

theorem feed_ne_zero_of_noticeable {error : List UInt8} (hmax : error.length ≤ rtuMaxAduLength)
    (h : Noticeable error)
    : Lfsr.feed 0xA001#16 0#16 (frameBits error) ≠ 0#16 := by
  -- a frame is shorter than the 32767 steps after which the register repeats itself
  have hperiod : Lfsr.avoids 0xA001#16 1#16 2047 1#16 = true := by
    decide +kernel
  obtain hodd | htwo | ⟨hset, start, hwindow⟩ := h
  . apply Lfsr.feed_ne_zero_of_odd (by decide) (by decide) hodd
  . apply Lfsr.feed_ne_zero_of_count_two (by decide) (by decide) hperiod _ htwo
    rw [length_frameBits]
    unfold rtuMaxAduLength at hmax
    omega
  . apply Lfsr.feed_ne_zero_of_window (by decide) (by decide) hset hwindow

-- A frame that has been damaged in one of these ways does not pass.
theorem validateCrc_detects (frame : Mem UInt8) {frameLen : Nat} {error : List UInt8}
    (hmax : frameLen ≤ rtuMaxAduLength) (hvalid : validateCrc frame frameLen = true)
    (hlen : error.length = frameLen) (herror : Noticeable error)
    : validateCrc (frame.write 0 (xorBytes (frame.slice 0 frameLen) error)) frameLen = false := by
  rw [← Bool.not_eq_true, validateCrc_iff]
  rw [validateCrc_iff] at hvalid
  have hframe : (frame.slice 0 frameLen).length = error.length := by
    rw [Mem.length_slice, hlen]
  have hbytes : (frame.write 0 (xorBytes (frame.slice 0 frameLen) error)).slice 0 frameLen
      = xorBytes (frame.slice 0 frameLen) error := by
    have hsum : (xorBytes (frame.slice 0 frameLen) error).length = frameLen := by
      unfold xorBytes
      rw [List.length_zipWith, Mem.length_slice, hlen, Nat.min_self]
    have hsame := Mem.slice_write_same frame 0 (xorBytes (frame.slice 0 frameLen) error)
    rw [hsum] at hsame
    exact hsame
  rw [hbytes, crcValid_xorBytes hframe hvalid]
  apply feed_ne_zero_of_noticeable _ herror
  rw [hlen]
  exact hmax

def knownFrame : Mem UInt8 :=
  Mem.write (fun _ => 0) 0 [0x01, 0x03, 0x00, 0x00, 0x00, 0x0A, 0xC5, 0xCD]

-- seven wrong bits in a row, the last four of them in the CRC
theorem validateCrc_detects_boundary
    : validateCrc
        (knownFrame.write 0 (xorBytes (knownFrame.slice 0 8) [0, 0, 0, 0, 0, 0xE0, 0x0F, 0])) 8
        =
      false := by
  apply validateCrc_detects knownFrame
  . decide
  . decide +kernel
  . rfl
  . left
    decide +kernel

end Rtu
