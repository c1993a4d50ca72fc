import ModbusProtocol.Pdu.Impl.Packing
import ModbusProtocol.Pdu.Lemmas.Codec

/-!
This module contains the laws of the packing of bits, for every quantity that the counters can hold.
-/

namespace Pdu.Machine

theorem bitByteCount_eq (qty : UInt16)
    : (bitByteCount qty).toNat = Pdu.bitByteCount qty := by
  have hqty := qty.toNat_lt
  unfold bitByteCount Pdu.bitByteCount
  rw [UInt64.toNat_div, UInt64.toNat_add, UInt16.toNat_toUInt64, Nat.mod_eq_of_lt]
  . rfl
  . change qty.toNat + 7 < 2 ^ 64
    omega

theorem index_eq {qty : UInt16} {j : Nat} (hj : j < qty.toNat)
    : (UInt16.ofNat j).toNat = j ∧ ((UInt16.ofNat j).toUInt32 / 8).toNat = j / 8 ∧
        ((UInt16.ofNat j).toUInt32 % 8).toNat = j % 8 := by
  have hqty := qty.toNat_lt
  have hnat : (UInt16.ofNat j).toNat = j := UInt16.toNat_ofNat_of_lt' (Nat.lt_trans hj hqty)
  refine ⟨hnat, ?_, ?_⟩
  . rw [UInt32.toNat_div, UInt16.toNat_toUInt32, hnat]
    rfl
  . rw [UInt32.toNat_mod, UInt16.toNat_toUInt32, hnat]
    rfl

theorem mask_eq {x : UInt32} {k : Nat} (hx : x.toNat = k) (hk : k < 8)
    : ((1 : UInt32) <<< x).toUInt8 = 1 <<< UInt8.ofNat k := by
  have key : ∀ k : Fin 8, ((1 : UInt32) <<< UInt32.ofNat k.val).toUInt8 = 1 <<< UInt8.ofNat k.val := by
    decide
  have heq : x = UInt32.ofNat k := by
    rw [← hx, UInt32.ofNat_toNat]
  rw [heq]
  exact key ⟨k, hk⟩

theorem bit_eq {x : UInt32} {k : Nat} (byte : UInt8) (hx : x.toNat = k) (hk : k < 8)
    : ((byte.toUInt32 >>> x) &&& 1).toUInt8 = (byte >>> UInt8.ofNat k) &&& 1 := by
  have key : ∀ (byte : Fin 256) (k : Fin 8),
      (((UInt8.ofFin byte).toUInt32 >>> UInt32.ofNat k.val) &&& 1).toUInt8
        =
      (UInt8.ofFin byte >>> UInt8.ofNat k.val) &&& 1 := by
    decide +kernel
  have heq : x = UInt32.ofNat k := by
    rw [← hx, UInt32.ofNat_toNat]
  rw [heq]
  exact key byte.toFin ⟨k, hk⟩

theorem packBits_eq (values : Mem UInt8) (qty : UInt16) (out : Mem UInt8)
    : packBits values qty out = Pdu.packBits values qty out := by
  unfold packBits Pdu.packBits
  dsimp only
  rw [Counter.loop_zero, bitByteCount_eq]
  apply List.foldl_ext
  intro out j hj
  obtain ⟨hnat, hindex, hbit⟩ := index_eq (List.mem_range.mp hj)
  rw [hnat, hindex, mask_eq hbit (by omega)]

theorem unpackBits_eq (packed : Mem UInt8) (qty : UInt16) (out : Mem UInt8)
    : unpackBits packed qty out = Pdu.unpackBits packed qty out := by
  unfold unpackBits Pdu.unpackBits
  rw [Counter.loop_zero]
  apply List.foldl_ext
  intro out j hj
  obtain ⟨hnat, hindex, hbit⟩ := index_eq (List.mem_range.mp hj)
  dsimp only
  rw [hnat, hindex, bit_eq _ hbit (by omega)]

-- The bytes that are written, whatever has been there before.
def packed (values : Mem UInt8) (qty : UInt16) : List UInt8 :=
  Bits.pack (boolsOf (values.slice 0 qty.toNat))

theorem length_packed (values : Mem UInt8) (qty : UInt16)
    : (packed values qty).length = (qty.toNat + 7) / 8 := by
  simp [packed, boolsOf]

theorem packBits_write (values : Mem UInt8) (qty : UInt16) (out : Mem UInt8)
    : packBits values qty out = out.write 0 (packed values qty) := by
  rw [packBits_eq, packBits_eq_write]
  rfl

theorem slice_packBits (values : Mem UInt8) (qty : UInt16) (out : Mem UInt8)
    : (packBits values qty out).slice 0 (Pdu.bitByteCount qty) = packed values qty := by
  have hlen : Pdu.bitByteCount qty = (packed values qty).length := (length_packed values qty).symm
  rw [packBits_write, hlen, Mem.slice_write_same]

theorem unpackBits_write (bytes : Mem UInt8) (qty : UInt16) (out : Mem UInt8)
    : unpackBits bytes qty out
        = out.write 0
          ((Bits.unpack (bytes.slice 0 (Pdu.bitByteCount qty)) qty.toNat).map Bool.toUInt8) := by
  rw [unpackBits_eq, unpackBits_eq_write]

theorem unpack_packed (values : Mem UInt8) (qty : UInt16)
    : (Bits.unpack (packed values qty) qty.toNat).map Bool.toUInt8
        = (values.slice 0 qty.toNat).map fun v => if v = 0 then 0 else 1 := by
  have hlen : (boolsOf (values.slice 0 qty.toNat)).length = qty.toNat := by simp [boolsOf]
  have hround := Bits.unpack_pack (boolsOf (values.slice 0 qty.toNat))
  rw [hlen] at hround
  unfold packed
  rw [hround]
  unfold boolsOf
  rw [List.map_map]
  apply List.map_congr_left
  intro v _
  dsimp only [Function.comp_apply]
  split
  next hv =>
    rw [hv]
    rfl
  next hv =>
    rw [bne_iff_ne.mpr hv]
    rfl

theorem boolsOf_unpacked (bits : List Bool)
    : boolsOf (bits.map Bool.toUInt8) = bits := by
  unfold boolsOf
  rw [List.map_map]
  apply (List.map_congr_left ?_).trans (List.map_id bits)
  intro bit _
  cases bit
  . rfl
  . rfl

theorem packed_unpacked (bytes : Mem UInt8) (qty : UInt16) (out : Mem UInt8)
    : packed (unpackBits bytes qty out) qty
        = Bits.clear (bytes.slice 0 (Pdu.bitByteCount qty)) qty.toNat := by
  generalize hbits : Bits.unpack (bytes.slice 0 (Pdu.bitByteCount qty)) qty.toNat = bits
  have hlen : qty.toNat = (bits.map Bool.toUInt8).length := by simp [← hbits]
  have hslice : (unpackBits bytes qty out).slice 0 qty.toNat = bits.map Bool.toUInt8 := by
    rw [unpackBits_write, hbits, hlen, Mem.slice_write_same]
  unfold packed
  rw [hslice, boolsOf_unpacked, ← hbits]
  apply Bits.pack_unpack
  rw [Mem.length_slice]
  rfl

theorem packed_eq_iff (values values' : Mem UInt8) (qty : UInt16)
    : packed values qty = packed values' qty ↔ ∀ i < qty.toNat, values i = 0 ↔ values' i = 0 := by
  unfold packed
  rw [Bits.pack_inj (by simp [boolsOf])]
  unfold boolsOf Mem.slice
  rw [List.map_map, List.map_map, List.map_inj_left]
  simp only [List.mem_range, Function.comp_apply, Nat.zero_add]
  apply forall₂_congr
  intro i _
  rw [Bool.eq_iff_iff, bne_iff_ne, bne_iff_ne]
  exact not_iff_not

-- Packing keeps which values are not zero and nothing else, unpacking keeps the bits below the quantity.
theorem packing_laws (qty : UInt16)
    : (∀ values : Mem UInt8, ∃ bytes : List UInt8, bytes.length = (qty.toNat + 7) / 8 ∧
        (∀ out, packBits values qty out = out.write 0 bytes) ∧
        (∀ i ≥ qty.toNat, Bits.get bytes i = false) ∧
        ∀ out out', unpackBits (packBits values qty out) qty out'
          = out'.write 0 ((values.slice 0 qty.toNat).map fun v => if v = 0 then 0 else 1)) ∧
      (∀ bytes out out' : Mem UInt8, packBits (unpackBits bytes qty out) qty out'
        = out'.write 0 (Bits.clear (bytes.slice 0 (bitByteCount qty).toNat) qty.toNat)) ∧
      ∀ values values' out out' : Mem UInt8,
        (packBits values qty out).slice 0 (bitByteCount qty).toNat
            = (packBits values' qty out').slice 0 (bitByteCount qty).toNat
          ↔
        ∀ i < qty.toNat, values i = 0 ↔ values' i = 0 := by
  rw [bitByteCount_eq]
  refine ⟨?_, ?_, ?_⟩
  . intro values
    refine ⟨packed values qty, length_packed values qty, packBits_write values qty, ?_, ?_⟩
    . intro i hi
      apply Bits.get_pack_of_ge
      simpa [boolsOf] using hi
    . intro out out'
      rw [unpackBits_write, slice_packBits, unpack_packed]
  . intro bytes out out'
    rw [packBits_write, packed_unpacked]
  . intro values values' out out'
    rw [slice_packBits, slice_packBits]
    apply packed_eq_iff

example : (packBits (Mem.write (fun _ => 0) 0 [1, 0, 1, 1, 0, 0, 1, 0, 1, 1, 1]) 11 fun _ => 0xAA).slice 0 3
    = [0x4D, 0x07, 0xAA] := by
  rw [packBits_eq]
  decide

end Pdu.Machine
