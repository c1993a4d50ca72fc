import ModbusProtocol.Data.Lfsr
import Mathlib

/-!
This module contains what a shift register calculates: read as a polynomial over the field with two
elements, its lowest bit being the highest coefficient, it is the remainder of what has been fed to it.
-/

open Polynomial

namespace Lfsr

def coefficient (bit : Bool) : ZMod 2 :=
  if bit then 1 else 0

noncomputable section

variable {w : Nat}

-- the register, its bits reflected
def register (s : BitVec w) : (ZMod 2)[X] :=
  ∑ k ∈ Finset.range w, monomial k (coefficient (s.getMsbD k))

def generator (poly : BitVec w) : (ZMod 2)[X] :=
  X ^ w + register poly

-- the first bit has the highest coefficient
def message : List Bool → (ZMod 2)[X]
  | [] => 0
  | bit :: bits => monomial bits.length (coefficient bit) + message bits

theorem coefficient_injective {a b : Bool} (h : coefficient a = coefficient b)
    : a = b := by
  revert a b
  decide

@[simp]
theorem coefficient_false
    : coefficient false = 0 := by
  rfl

theorem coefficient_xor (a b : Bool)
    : coefficient (a ^^ b) = coefficient a + coefficient b := by
  revert a b
  decide

theorem coeff_register (s : BitVec w) (k : Nat)
    : (register s).coeff k = coefficient (s.getMsbD k) := by
  unfold register
  rw [finsetSum_coeff]
  simp only [coeff_monomial]
  rw [Finset.sum_ite_eq']
  split
  . rfl
  next h =>
    rw [Finset.mem_range, Nat.not_lt] at h
    rw [BitVec.getMsbD_of_ge s k h]
    rfl

theorem register_injective {a b : BitVec w} (h : register a = register b)
    : a = b := by
  apply BitVec.eq_of_getMsbD_eq
  intro k _
  apply coefficient_injective
  rw [← coeff_register, ← coeff_register, h]

theorem register_xor (a b : BitVec w)
    : register (a ^^^ b) = register a + register b := by
  ext k
  rw [coeff_add]
  simp only [coeff_register]
  rw [BitVec.getMsbD_xor]
  apply coefficient_xor

theorem degree_register_lt (s : BitVec w)
    : (register s).degree < w := by
  rw [degree_lt_iff_coeff_zero]
  intro k hk
  rw [coeff_register, BitVec.getMsbD_of_ge s k hk]
  rfl

theorem generator_monic (poly : BitVec w)
    : (generator poly).Monic := by
  apply monic_X_pow_add
  apply degree_register_lt

theorem degree_generator (poly : BitVec w)
    : (generator poly).degree = w := by
  unfold generator
  rw [degree_add_eq_left_of_degree_lt]
  . apply degree_X_pow
  . rw [degree_X_pow]
    apply degree_register_lt

-- A shift multiplies, except that the highest coefficient is lost.
theorem register_shiftRight (hw : 0 < w) (s : BitVec w)
    : register (s >>> 1) + monomial w (coefficient (s.getLsbD 0)) = X * register s := by
  ext k
  rw [coeff_add, coeff_monomial, coeff_register, BitVec.getMsbD_ushiftRight]
  cases k with
  | zero =>
    rw [coeff_X_mul_zero, if_neg (by omega)]
    simp
  | succ k =>
    rw [coeff_X_mul, coeff_register]
    by_cases hlast : w = k + 1
    . have hlow : w - 1 - k = 0 := by omega
      have hk : k < w := by omega
      rw [if_pos hlast, BitVec.getMsbD_eq_getLsbD s k, hlow]
      simp [hlast]
    . rw [if_neg hlast]
      by_cases hk : k + 1 < w
      . simp [hk]
      . rw [BitVec.getMsbD_of_ge s k (by omega)]
        simp [hk]

-- What is shifted out is taken off again with the leading term of the generator.
theorem register_step (hw : 0 < w) (poly s : BitVec w)
    : register (step poly s) + generator poly * C (coefficient (s.getLsbD 0)) = X * register s := by
  have htwo : register poly + register poly = 0 := CharTwo.add_self_eq_zero _
  rw [← register_shiftRight hw]
  unfold step
  cases s.getLsbD 0 with
  | false => simp
  | true =>
    have hone : coefficient true = 1 := rfl
    rw [hone]
    rw [C_1, mul_one, monomial_one_right_eq_X_pow]
    rw [if_pos rfl, register_xor]
    unfold generator
    rw [add_comm (X ^ w), add_assoc, ← add_assoc (register poly), htwo, zero_add]

theorem register_ofBit (hw : 0 < w) (bit : Bool)
    : register (ofBit bit : BitVec w) = monomial (w - 1) (coefficient bit) := by
  ext k
  rw [coeff_register, coeff_monomial, BitVec.getMsbD_eq_getLsbD, getLsbD_ofBit hw]
  by_cases hk : w - 1 = k
  . have hlow : w - 1 - k = 0 := by omega
    have hlt : k < w := by omega
    rw [if_pos hk]
    simp [hlow, hlt]
  . rw [if_neg hk]
    by_cases hlt : k < w
    . have hhigh : ¬w - 1 - k = 0 := by omega
      simp [hhigh]
    . simp [hlt]

-- By induction on the bits: each one multiplies what has been fed so far.
theorem register_feed (hw : 0 < w) (poly s : BitVec w) (bits : List Bool)
    : register (feed poly s bits)
        =
      (X ^ bits.length * register s + X ^ w * message bits) %ₘ generator poly := by
  induction bits generalizing s with
  | nil =>
    symm
    unfold feed message
    rw [List.length_nil, pow_zero, one_mul, mul_zero, add_zero]
    rw [modByMonic_eq_self_iff (generator_monic poly), degree_generator]
    apply degree_register_lt
  | cons bit bits ih =>
    have hstep := eq_sub_of_add_eq (register_step hw poly (s ^^^ ofBit bit))
    have hleading : (X * X ^ (w - 1) : (ZMod 2)[X]) = X ^ w := by
      rw [← pow_succ', Nat.sub_add_cancel hw]
    unfold feed message
    rw [ih, hstep, register_xor, register_ofBit hw]
    rw [← C_mul_X_pow_eq_monomial, ← C_mul_X_pow_eq_monomial, List.length_cons]
    generalize coefficient ((s ^^^ ofBit bit).getLsbD 0) = out
    apply modByMonic_eq_of_dvd_sub (generator_monic poly)
    exists -(X ^ bits.length * C out)
    linear_combination X ^ bits.length * C (coefficient bit) * hleading

end

end Lfsr
