import Mathlib.Data.List.Basic

/-!
This module contains loops that count with 16 bits up to a limit of 16 bits. Such a counter does not wrap around,
since it stops at the limit.
-/

namespace Counter

variable {σ : Type}

theorem toNat_succ {limit i : UInt16} (h : i < limit)
    : (i + 1).toNat = i.toNat + 1 := by
  rw [UInt16.lt_iff_toNat_lt] at h
  have hlimit := limit.toNat_lt
  rw [UInt16.toNat_add, UInt16.toNat_one, Nat.mod_eq_of_lt (by omega)]

-- `for (uint16_t i = 0; i < limit; i++)`, from some `i` on
def loop (limit : UInt16) (f : σ → UInt16 → σ) (s : σ) (i : UInt16) : σ :=
  if i < limit then
    loop limit f (f s i) (i + 1)
  else
    s
termination_by limit.toNat - i.toNat
decreasing_by
  next h =>
    rw [toNat_succ h]
    rw [UInt16.lt_iff_toNat_lt] at h
    omega

theorem loop_eq (limit : UInt16) (f : σ → UInt16 → σ) (s : σ) (i : UInt16) (n : Nat)
    (hn : i.toNat + n = limit.toNat)
    : loop limit f s i = (List.range' i.toNat n).foldl (fun s j => f s (UInt16.ofNat j)) s := by
  induction n generalizing i s with
  | zero =>
    unfold loop
    rw [if_neg]
    . rfl
    . rw [UInt16.lt_iff_toNat_lt]
      omega
  | succ n ih =>
    have hlt : i < limit := by
      rw [UInt16.lt_iff_toNat_lt]
      omega
    have hsucc := toNat_succ hlt
    unfold loop
    rw [if_pos hlt, ih _ _ (by omega), hsucc, List.range'_succ, List.foldl_cons, UInt16.ofNat_toNat]

-- The whole loop comes to what happens at every number below the limit, once each and in this order.
theorem loop_zero (limit : UInt16) (f : σ → UInt16 → σ) (s : σ)
    : loop limit f s 0 = (List.range limit.toNat).foldl (fun s j => f s (UInt16.ofNat j)) s := by
  rw [loop_eq limit f s 0 limit.toNat (by simp), List.range_eq_range']
  rfl

end Counter
