import Mathlib.Algebra.Group.Nat.Defs
import Mathlib.Data.List.Basic

/-!
This module contains the packing of booleans into bytes, least significant bit first and with the
padding of the last byte clear.
-/

namespace Bits

def get (bytes : List UInt8) (i : Nat) : Bool :=
  (bytes.getD (i / 8) 0).toBitVec.getLsbD (i % 8)

def unpack (bytes : List UInt8) (n : Nat) : List Bool :=
  (List.range n).map (get bytes)

def pack (bits : List Bool) : List UInt8 :=
  (List.range ((bits.length + 7) / 8)).map fun j =>
    UInt8.ofBitVec ((BitVec.ofBoolListLE ((bits.drop (8 * j)).take 8)).setWidth 8)

-- The same bytes with every bit behind the first `n` cleared.
def clear (bytes : List UInt8) (n : Nat) : List UInt8 :=
  bytes.mapIdx fun j byte => byte &&& UInt8.ofNat (2 ^ min 8 (n - 8 * j) - 1)

theorem byte_eq_of_bits {a b : UInt8}
    (h : ∀ k < 8, a.toBitVec.getLsbD k = b.toBitVec.getLsbD k)
    : a = b := by
  apply UInt8.eq_of_toBitVec_eq
  apply BitVec.eq_of_getLsbD_eq
  exact h

theorem shiftRight_and_one (b : UInt8) (k : Nat) (h : k < 8)
    : (b >>> UInt8.ofNat k) &&& 1 = (b.toBitVec.getLsbD k).toUInt8 := by
  have key : ∀ (x : Fin 256) (k : Fin 8),
      (UInt8.ofFin x >>> UInt8.ofNat k.val) &&& 1
        =
      ((UInt8.ofFin x).toBitVec.getLsbD k.val).toUInt8 := by
    decide +kernel
  exact key b.toFin ⟨k, h⟩

theorem getLsbD_one_shiftLeft (i k : Nat) (hi : i < 8) (hk : k < 8)
    : ((1 : UInt8) <<< UInt8.ofNat i).toBitVec.getLsbD k = decide (k = i) := by
  have key : ∀ i k : Fin 8,
      ((1 : UInt8) <<< UInt8.ofNat i.val).toBitVec.getLsbD k.val = decide (k.val = i.val) := by
    decide
  exact key ⟨i, hi⟩ ⟨k, hk⟩

@[simp]
theorem length_pack (bits : List Bool)
    : (pack bits).length = (bits.length + 7) / 8 := by
  simp [pack]

@[simp]
theorem length_unpack (bytes : List UInt8) (n : Nat)
    : (unpack bytes n).length = n := by
  simp [unpack]

theorem getLsbD_pack (bits : List Bool) (j k : Nat) (hj : j < (bits.length + 7) / 8) (hk : k < 8)
    : ((pack bits).getD j 0).toBitVec.getLsbD k = bits.getD (8 * j + k) false := by
  unfold pack
  simp [hj, hk]

theorem get_pack (bits : List Bool) (i : Nat)
    : get (pack bits) i = bits.getD i false := by
  unfold get
  by_cases h : i / 8 < (bits.length + 7) / 8
  . rw [getLsbD_pack _ _ _ h (by omega)]
    rw [show 8 * (i / 8) + i % 8 = i by omega]
  . have h1 : (pack bits).length ≤ i / 8 := by simp; omega
    have h2 : bits.length ≤ i := by omega
    simp [List.getElem?_eq_none h1, List.getElem?_eq_none h2]

theorem unpack_pack (bits : List Bool)
    : unpack (pack bits) bits.length = bits := by
  apply List.ext_getElem
  . simp
  . intro i h1 h2
    simp [unpack, get_pack, h2]

theorem pack_inj {bits bits' : List Bool} (hlen : bits.length = bits'.length)
    : pack bits = pack bits' ↔ bits = bits' := by
  constructor
  . intro h
    rw [← unpack_pack bits, ← unpack_pack bits', h, hlen]
  . intro h
    rw [h]

theorem get_pack_of_ge {bits : List Bool} {i : Nat} (h : bits.length ≤ i)
    : get (pack bits) i = false := by
  rw [get_pack, List.getD_eq_getElem?_getD, List.getElem?_eq_none h]
  rfl

theorem eq_of_get_eq {bs bs' : List UInt8} (hlen : bs.length = bs'.length)
    (h : ∀ i < 8 * bs.length, get bs i = get bs' i)
    : bs = bs' := by
  apply List.ext_getElem hlen
  intro j h1 h2
  apply byte_eq_of_bits
  intro k hk
  have := h (8 * j + k) (by omega)
  unfold get at this
  rw [show (8 * j + k) / 8 = j by omega, show (8 * j + k) % 8 = k by omega] at this
  simpa [h1, h2] using this

theorem getLsbD_mask (m k : Nat) (hm : m ≤ 8) (hk : k < 8)
    : (UInt8.ofNat (2 ^ m - 1)).toBitVec.getLsbD k = decide (k < m) := by
  have key : ∀ (m : Fin 9) (k : Fin 8),
      (UInt8.ofNat (2 ^ m.val - 1)).toBitVec.getLsbD k.val = decide (k.val < m.val) := by
    decide
  exact key ⟨m, by omega⟩ ⟨k, hk⟩

@[simp]
theorem length_clear (bytes : List UInt8) (n : Nat)
    : (clear bytes n).length = bytes.length := by
  simp [clear]

theorem get_clear (bytes : List UInt8) (n i : Nat)
    : get (clear bytes n) i = (get bytes i && decide (i < n)) := by
  have hk : i % 8 < 8 := Nat.mod_lt i (by decide)
  unfold get clear
  by_cases h : i / 8 < bytes.length
  . simp only [List.getD_eq_getElem?_getD, List.getElem?_mapIdx, List.getElem?_eq_getElem h]
    simp only [Option.map_some, Option.getD_some, UInt8.toBitVec_and, BitVec.getLsbD_and]
    rw [getLsbD_mask _ _ (Nat.min_le_left 8 _) hk]
    congr 2
    rw [eq_iff_iff]
    omega
  . simp [List.getElem?_eq_none (Nat.le_of_not_lt h)]

theorem get_unpack (bytes : List UInt8) (n i : Nat)
    : (unpack bytes n).getD i false = (get bytes i && decide (i < n)) := by
  unfold unpack
  by_cases h : i < n
  . simp [h]
  . simp [h]

-- Unpacking and packing again clears the padding.
theorem pack_unpack {bytes : List UInt8} {n : Nat} (h : bytes.length = (n + 7) / 8)
    : pack (unpack bytes n) = clear bytes n := by
  apply eq_of_get_eq
  . simp [h]
  . intro i _
    rw [get_pack, get_unpack, get_clear]

theorem unpack_clear (bytes : List UInt8) (n : Nat)
    : unpack (clear bytes n) n = unpack bytes n := by
  unfold unpack
  apply List.map_congr_left
  intro i hi
  rw [get_clear, decide_eq_true (List.mem_range.mp hi), Bool.and_true]

end Bits
