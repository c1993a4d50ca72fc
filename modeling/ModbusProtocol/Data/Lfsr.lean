import Mathlib.Data.List.Basic
import Mathlib.Data.List.Count
import Mathlib.Logic.Function.Iterate

/-!
This module contains the shift register of a cyclic code. It is linear, so whether an error is noticed
depends on the error alone, and every step can be undone, so only a few kinds of errors lead back to zero.
-/

namespace Lfsr

variable {w : Nat} (poly : BitVec w)

def step (s : BitVec w) : BitVec w :=
  (s >>> 1) ^^^ if s.getLsbD 0 then poly else 0#w

def ofBit (bit : Bool) : BitVec w :=
  if bit then 1#w else 0#w

def feed : BitVec w → List Bool → BitVec w
  | s, [] => s
  | s, bit :: bits => feed (step poly (s ^^^ ofBit bit)) bits

-- the first bit lowest
def word : List Bool → BitVec w
  | [] => 0#w
  | bit :: bits => ofBit bit ^^^ (word bits <<< 1)

theorem getLsbD_step (s : BitVec w) (i : Nat)
    : (step poly s).getLsbD i = (s.getLsbD (i + 1) ^^ (s.getLsbD 0 && poly.getLsbD i)) := by
  unfold step
  cases s.getLsbD 0 with
  | false => simp [Nat.add_comm]
  | true => simp [Nat.add_comm]

theorem step_xor (a b : BitVec w)
    : step poly (a ^^^ b) = step poly a ^^^ step poly b := by
  apply BitVec.eq_of_getLsbD_eq
  intro i hi
  simp only [BitVec.getLsbD_xor, getLsbD_step]
  generalize a.getLsbD 0 = a₀
  generalize b.getLsbD 0 = b₀
  generalize a.getLsbD (i + 1) = aᵢ
  generalize b.getLsbD (i + 1) = bᵢ
  generalize poly.getLsbD i = pᵢ
  revert a₀ b₀ aᵢ bᵢ pᵢ
  decide

@[simp]
theorem step_zero
    : step poly 0#w = 0#w := by
  simp [step]

@[simp]
theorem iterate_step_zero (n : Nat)
    : (step poly)^[n] 0#w = 0#w := by
  apply Function.iterate_fixed
  apply step_zero

theorem feed_append (s : BitVec w) (bits bits' : List Bool)
    : feed poly s (bits ++ bits') = feed poly (feed poly s bits) bits' := by
  induction bits generalizing s with
  | nil => rfl
  | cons bit bits ih => exact ih (step poly (s ^^^ ofBit bit))

theorem feed_replicate_false (s : BitVec w) (n : Nat)
    : feed poly s (List.replicate n false) = (step poly)^[n] s := by
  induction n generalizing s with
  | zero => rfl
  | succ n ih =>
    rw [List.replicate_succ]
    unfold feed
    rw [ih]
    simp [ofBit]

theorem ofBit_xor (a b : Bool)
    : (ofBit (a ^^ b) : BitVec w) = ofBit a ^^^ ofBit b := by
  cases a with
  | false => simp [ofBit]
  | true =>
    cases b with
    | false => simp [ofBit]
    | true => simp [ofBit]

theorem feed_xor (s s' : BitVec w) {bits bits' : List Bool} (hlen : bits.length = bits'.length)
    : feed poly (s ^^^ s') (List.zipWith (· ^^ ·) bits bits')
        =
      feed poly s bits ^^^ feed poly s' bits' := by
  induction bits generalizing s s' bits' with
  | nil =>
    cases bits' with
    | nil => rfl
    | cons bit' bits' => contradiction
  | cons bit bits ih =>
    cases bits' with
    | nil => contradiction
    | cons bit' bits' =>
      rw [List.zipWith_cons_cons]
      unfold feed
      rw [← ih _ _ (Nat.succ.inj hlen), ← step_xor, ofBit_xor]
      congr 2
      ac_rfl

-- A register of the polynomial's degree: its highest coefficient is there.
variable {poly}

theorem step_injective (hw : 0 < w) (htop : poly.getLsbD (w - 1) = true) {a b : BitVec w}
    (h : step poly a = step poly b)
    : a = b := by
  have hbits : ∀ i, (step poly a).getLsbD i = (step poly b).getLsbD i := by
    intro i
    rw [h]
  simp only [getLsbD_step] at hbits
  -- the highest bit of the result is the bit that has been shifted out
  have hlow : a.getLsbD 0 = b.getLsbD 0 := by
    have hhigh := hbits (w - 1)
    rw [Nat.sub_add_cancel hw, htop] at hhigh
    simpa using hhigh
  apply BitVec.eq_of_getLsbD_eq
  intro i hi
  cases i with
  | zero => exact hlow
  | succ i =>
    have hbit := hbits i
    rw [hlow] at hbit
    simpa using hbit

theorem iterate_step_injective (hw : 0 < w) (htop : poly.getLsbD (w - 1) = true) {a b : BitVec w}
    (n : Nat) (h : (step poly)^[n] a = (step poly)^[n] b)
    : a = b := by
  apply Function.Injective.iterate _ n h
  intro a b hstep
  apply step_injective hw htop hstep

theorem iterate_step_ne_zero (hw : 0 < w) (htop : poly.getLsbD (w - 1) = true) {s : BitVec w}
    (n : Nat) (hs : s ≠ 0#w)
    : (step poly)^[n] s ≠ 0#w := by
  intro hzero
  apply hs
  apply iterate_step_injective hw htop n
  rw [hzero, iterate_step_zero]

theorem getLsbD_ofBit (hw : 0 < w) (bit : Bool) (i : Nat)
    : (ofBit bit : BitVec w).getLsbD i = (decide (i = 0) && bit) := by
  cases bit with
  | false => simp [ofBit]
  | true => simp [ofBit, hw]

theorem getLsbD_word (bits : List Bool) (i : Nat)
    : (word bits : BitVec w).getLsbD i = (decide (i < w) && bits.getD i false) := by
  induction bits generalizing i with
  | nil => simp [word]
  | cons bit bits ih =>
    unfold word
    by_cases hw : 0 < w
    . rw [BitVec.getLsbD_xor, BitVec.getLsbD_shiftLeft, getLsbD_ofBit hw]
      cases i with
      | zero => simp [hw]
      | succ i =>
        by_cases hi : i + 1 < w
        . have hlt : i < w := by omega
          rw [Nat.add_sub_cancel, ih]
          simp [hi, hlt]
        . simp [hi]
    . obtain rfl : w = 0 := by omega
      simp

theorem step_shiftLeft {bits : List Bool} (hlen : bits.length < w)
    : step poly (word bits <<< 1) = word bits := by
  apply BitVec.eq_of_getLsbD_eq
  intro i hi
  rw [getLsbD_step]
  by_cases hlast : i + 1 < w
  . simp [getLsbD_word, hlast, hi]
  . have hout : bits[i]? = none := by
      apply List.getElem?_eq_none
      omega
    simp [getLsbD_word, hlast, hout]

-- As many bits as the register holds can be put into it at once.
theorem feed_eq_iterate (s : BitVec w) {bits : List Bool} (hlen : bits.length ≤ w)
    : feed poly s bits = (step poly)^[bits.length] (s ^^^ word bits) := by
  induction bits generalizing s with
  | nil => simp [feed, word]
  | cons bit bits ih =>
    rw [List.length_cons] at hlen
    unfold feed word
    rw [ih _ (by omega), List.length_cons, Function.iterate_succ_apply]
    have hstep : step poly (s ^^^ (ofBit bit ^^^ word bits <<< 1))
        = step poly (s ^^^ ofBit bit) ^^^ word bits := by
      rw [← BitVec.xor_assoc, step_xor poly (s ^^^ ofBit bit), step_shiftLeft (by omega)]
    rw [hstep]

-- the parity of the lowest bits
def parity : Nat → BitVec w → Bool
  | 0, _ => false
  | n + 1, s => parity n s ^^ s.getLsbD n

theorem parity_xor (n : Nat) (a b : BitVec w)
    : parity n (a ^^^ b) = (parity n a ^^ parity n b) := by
  induction n with
  | zero => rfl
  | succ n ih =>
    unfold parity
    rw [ih, BitVec.getLsbD_xor, Bool.xor_assoc, Bool.xor_assoc, Bool.xor_left_comm (parity n b)]

theorem parity_zero (n : Nat)
    : parity n 0#w = false := by
  induction n with
  | zero => rfl
  | succ n ih => simp [parity, ih]

theorem parity_shiftRight (n : Nat) (s : BitVec w)
    : parity n (s >>> 1) = (parity (n + 1) s ^^ s.getLsbD 0) := by
  induction n with
  | zero => simp [parity]
  | succ n ih =>
    unfold parity
    rw [ih, BitVec.getLsbD_ushiftRight, Nat.add_comm 1 n, Bool.xor_right_comm]

theorem parity_ofBit (hw : 0 < w) (n : Nat) (bit : Bool)
    : parity (n + 1) (ofBit bit : BitVec w) = bit := by
  induction n with
  | zero => simp [parity, getLsbD_ofBit hw]
  | succ n ih =>
    unfold parity
    rw [ih, getLsbD_ofBit hw]
    simp

-- A polynomial with an odd number of terms beside the leading one keeps the parity of the register.
theorem parity_step (hodd : parity w poly = true) (s : BitVec w)
    : parity w (step poly s) = parity w s := by
  have htop : parity (w + 1) s = parity w s := by
    simp [parity]
  unfold step
  rw [parity_xor, parity_shiftRight, htop]
  cases s.getLsbD 0 with
  | false => simp [parity_zero]
  | true => simp [hodd]

theorem parity_feed (hw : 0 < w) (hodd : parity w poly = true) (s : BitVec w) (bits : List Bool)
    : parity w (feed poly s bits) = (parity w s ^^ decide (bits.count true % 2 = 1)) := by
  obtain ⟨n, rfl⟩ : ∃ n, w = n + 1 := Nat.exists_eq_succ_of_ne_zero (by omega)
  induction bits generalizing s with
  | nil => simp [feed]
  | cons bit bits ih =>
    unfold feed
    rw [ih, parity_step hodd, parity_xor, parity_ofBit hw]
    cases bit with
    | false => simp
    | true =>
      rw [List.count_cons_self, Bool.xor_assoc]
      congr 1
      by_cases hcount : bits.count true % 2 = 1
      . have hnext : ¬(bits.count true + 1) % 2 = 1 := by omega
        simp [hcount, hnext]
      . have hnext : (bits.count true + 1) % 2 = 1 := by omega
        simp [hcount, hnext]

theorem feed_ne_zero_of_odd (hw : 0 < w) (hodd : parity w poly = true) {bits : List Bool}
    (h : bits.count true % 2 = 1)
    : feed poly 0#w bits ≠ 0#w := by
  intro hzero
  have hparity := parity_feed hw hodd 0#w bits
  rw [hzero] at hparity
  simp [parity_zero, h] at hparity

theorem eq_replicate_false {bits : List Bool} (h : true ∉ bits)
    : bits = List.replicate bits.length false := by
  apply List.eq_replicate_of_mem
  intro bit hmem
  cases bit with
  | false => rfl
  | true => contradiction

-- Bits that are not set do not hide an error.
theorem feed_surrounded (hw : 0 < w) (htop : poly.getLsbD (w - 1) = true)
    {before bits behind : List Bool} (hbefore : true ∉ before) (hbehind : true ∉ behind)
    (h : feed poly 0#w bits ≠ 0#w)
    : feed poly 0#w (before ++ bits ++ behind) ≠ 0#w := by
  rw [eq_replicate_false hbefore, eq_replicate_false hbehind, feed_append, feed_append]
  rw [feed_replicate_false, feed_replicate_false, iterate_step_zero]
  apply iterate_step_ne_zero hw htop _ h

theorem word_ne_zero {bits : List Bool} (hlen : bits.length ≤ w) (h : true ∈ bits)
    : (word bits : BitVec w) ≠ 0#w := by
  intro hzero
  obtain ⟨i, hi, hbit⟩ := List.getElem_of_mem h
  have hget := getLsbD_word (w := w) bits i
  rw [hzero] at hget
  have hlt : i < w := by omega
  simp [hlt, hi, hbit] at hget

theorem feed_ne_zero_of_burst (hw : 0 < w) (htop : poly.getLsbD (w - 1) = true) {bits : List Bool}
    (hlen : bits.length ≤ w) (h : true ∈ bits)
    : feed poly 0#w bits ≠ 0#w := by
  rw [feed_eq_iterate _ hlen, BitVec.zero_xor]
  apply iterate_step_ne_zero hw htop
  apply word_ne_zero hlen h

-- Two wrong bits cancel out only a multiple of the period apart.
theorem feed_ne_zero_of_two (hw : 0 < w) (htop : poly.getLsbD (w - 1) = true) {n : Nat}
    (hperiod : (step poly)^[n + 1] 1#w ≠ 1#w)
    : feed poly 0#w (true :: List.replicate n false ++ [true]) ≠ 0#w := by
  have hrun : feed poly 0#w (true :: List.replicate n false ++ [true])
      = step poly ((step poly)^[n + 1] 1#w ^^^ 1#w) := by
    rw [feed_append]
    have hfirst : feed poly 0#w (true :: List.replicate n false) = (step poly)^[n + 1] 1#w := by
      unfold feed
      rw [feed_replicate_false, BitVec.zero_xor, Function.iterate_succ_apply]
      rfl
    rw [hfirst]
    rfl
  rw [hrun]
  intro hzero
  have hlast : (step poly)^[n + 1] 1#w ^^^ 1#w = 0#w := by
    apply step_injective hw htop
    rw [hzero, step_zero]
  apply hperiod
  apply BitVec.xor_eq_zero_iff.mp hlast

-- no step of the next `n` leads to the target
def avoids (poly target : BitVec w) : Nat → BitVec w → Bool
  | 0, _ => true
  | n + 1, s => step poly s ≠ target && avoids poly target n (step poly s)

theorem iterate_step_ne_of_avoids {target : BitVec w} {n : Nat} {s : BitVec w}
    (h : avoids poly target n s = true) {k : Nat} (hk : k < n)
    : (step poly)^[k + 1] s ≠ target := by
  induction n generalizing s k with
  | zero => contradiction
  | succ n ih =>
    unfold avoids at h
    rw [Bool.and_eq_true, decide_eq_true_iff] at h
    cases k with
    | zero => apply h.left
    | succ k =>
      rw [Function.iterate_succ_apply]
      apply ih h.right (by omega)

theorem feed_ne_zero_of_count_two (hw : 0 < w) (htop : poly.getLsbD (w - 1) = true) {n : Nat}
    (hperiod : avoids poly 1#w n 1#w = true) {bits : List Bool} (hlen : bits.length ≤ n + 1)
    (hcount : bits.count true = 2)
    : feed poly 0#w bits ≠ 0#w := by
  have hfirst : true ∈ bits := by
    apply List.count_pos_iff.mp
    omega
  obtain ⟨before, rest, rfl, hbefore⟩ := List.eq_append_cons_of_mem hfirst
  rw [List.count_append, List.count_cons_self, List.count_eq_zero_of_not_mem hbefore] at hcount
  have hsecond : true ∈ rest := by
    apply List.count_pos_iff.mp
    omega
  obtain ⟨between, behind, rfl, hbetween⟩ := List.eq_append_cons_of_mem hsecond
  rw [List.count_append, List.count_cons_self, List.count_eq_zero_of_not_mem hbetween] at hcount
  have hbehind : true ∉ behind := by
    apply List.count_eq_zero.mp
    omega
  have hparts : before ++ true :: (between ++ true :: behind)
      = before ++ (true :: between ++ [true]) ++ behind := by
    simp
  rw [hparts]
  apply feed_surrounded hw htop hbefore hbehind
  rw [eq_replicate_false hbetween]
  apply feed_ne_zero_of_two hw htop
  apply iterate_step_ne_of_avoids hperiod
  simp only [List.length_append, List.length_cons] at hlen
  omega

theorem feed_ne_zero_of_window (hw : 0 < w) (htop : poly.getLsbD (w - 1) = true) {bits : List Bool}
    {start : Nat} (h : true ∈ bits)
    (hwindow : ∀ i, bits[i]? = some true → start ≤ i ∧ i < start + w)
    : feed poly 0#w bits ≠ 0#w := by
  have hparts : bits = bits.take start ++ (bits.drop start).take w ++ bits.drop (start + w) := by
    rw [List.append_assoc, ← List.drop_drop, List.take_append_drop, List.take_append_drop]
  have hbefore : true ∉ bits.take start := by
    intro hmem
    obtain ⟨i, hi⟩ := List.mem_iff_getElem?.mp hmem
    rw [List.getElem?_take] at hi
    split at hi
    . next hlt =>
      have := hwindow i hi
      omega
    . contradiction
  have hbehind : true ∉ bits.drop (start + w) := by
    intro hmem
    obtain ⟨i, hi⟩ := List.mem_iff_getElem?.mp hmem
    rw [List.getElem?_drop] at hi
    have := hwindow _ hi
    omega
  rw [hparts, List.mem_append, List.mem_append] at h
  rw [hparts]
  apply feed_surrounded hw htop hbefore hbehind
  apply feed_ne_zero_of_burst hw htop
  . rw [List.length_take]
    omega
  . rcases h with (h | h) | h
    . contradiction
    . exact h
    . contradiction

theorem feed_eq_zero_iff (hw : 0 < w) (htop : poly.getLsbD (w - 1) = true) (s : BitVec w)
    {bits : List Bool} (hlen : bits.length ≤ w)
    : feed poly s bits = 0#w ↔ s = word bits := by
  rw [feed_eq_iterate s hlen]
  constructor
  . intro hzero
    apply BitVec.xor_eq_zero_iff.mp
    apply iterate_step_injective hw htop bits.length
    rw [hzero, iterate_step_zero]
  . intro heq
    rw [heq, BitVec.xor_self, iterate_step_zero]

end Lfsr
