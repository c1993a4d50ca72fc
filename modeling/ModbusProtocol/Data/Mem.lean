import Mathlib.Data.List.Basic
import Mathlib.Logic.Function.Basic

/-!
This module contains the memory behind a C pointer as a function that is handed the pointer sees it,
and the lemmas about copying ranges into it and reading ranges back. Nothing bounds the index: that
a function stays inside the object it was given is a statement about what its result depends on and
about what it leaves alone.
-/

abbrev Mem (α : Type) := Nat → α

namespace Mem

variable {α : Type}

def slice (m : Mem α) (off len : Nat) : List α :=
  (List.range len).map fun i => m (off + i)

def set (m : Mem α) (i : Nat) (a : α) : Mem α :=
  Function.update m i a

def write (m : Mem α) (off : Nat) (l : List α) : Mem α :=
  fun i => if i < off then m i else l[i - off]?.getD (m i)

-- the memory behind `p + k`
def shift (m : Mem α) (k : Nat) : Mem α :=
  fun i => m (k + i)

-- the memory behind `p` once a callee that was handed `p + k` has left `m'` there
def splice (m : Mem α) (k : Nat) (m' : Mem α) : Mem α :=
  fun i => if i < k then m i else m' (i - k)

@[simp]
theorem length_slice (m : Mem α) (off len : Nat)
    : (m.slice off len).length = len := by
  simp [slice]

theorem getElem?_slice (m : Mem α) (off len i : Nat) (h : i < len)
    : (m.slice off len)[i]? = some (m (off + i)) := by
  simp [slice, h]

theorem getElem_slice (m : Mem α) (off len i : Nat) (h : i < (m.slice off len).length)
    : (m.slice off len)[i] = m (off + i) := by
  simp [slice]

@[simp]
theorem slice_zero (m : Mem α) (off : Nat)
    : m.slice off 0 = [] := by
  rfl

theorem slice_congr {m m' : Mem α} {off len : Nat} (h : ∀ i < len, m (off + i) = m' (off + i))
    : m.slice off len = m'.slice off len := by
  unfold slice
  apply List.map_congr_left
  intro i hi
  apply h
  exact List.mem_range.mp hi

theorem eq_of_slice_eq {m m' : Mem α} {off len : Nat} (h : m.slice off len = m'.slice off len)
    : ∀ i < len, m (off + i) = m' (off + i) := by
  intro i hi
  have heq : (m.slice off len)[i]? = (m'.slice off len)[i]? := by rw [h]
  rw [getElem?_slice _ _ _ _ hi, getElem?_slice _ _ _ _ hi] at heq
  injection heq

theorem slice_add (m : Mem α) (off a b : Nat)
    : m.slice off (a + b) = m.slice off a ++ m.slice (off + a) b := by
  unfold slice
  rw [List.range_add]
  simp [Nat.add_assoc]

theorem slice_succ (m : Mem α) (off len : Nat)
    : m.slice off (len + 1) = m off :: m.slice (off + 1) len := by
  rw [Nat.add_comm, slice_add]
  rfl

theorem take_slice (m : Mem α) (off len k : Nat) (h : k ≤ len)
    : (m.slice off len).take k = m.slice off k := by
  obtain ⟨d, rfl⟩ := Nat.exists_eq_add_of_le h
  rw [slice_add]
  simp

theorem drop_slice (m : Mem α) (off len k : Nat) (h : k ≤ len)
    : (m.slice off len).drop k = m.slice (off + k) (len - k) := by
  obtain ⟨d, rfl⟩ := Nat.exists_eq_add_of_le h
  rw [slice_add]
  simp

theorem write_of_lt (m : Mem α) {off i : Nat} (l : List α) (h : i < off)
    : m.write off l i = m i := by
  simp [write, h]

theorem write_of_ge (m : Mem α) {off i : Nat} (l : List α) (h : off + l.length ≤ i)
    : m.write off l i = m i := by
  unfold write
  split
  . rfl
  . rw [List.getElem?_eq_none (by omega)]
    rfl

theorem write_getElem (m : Mem α) (off i : Nat) (l : List α) (h : i < l.length)
    : m.write off l (off + i) = l[i] := by
  have : ¬off + i < off := by omega
  simp [write, this, h]

@[simp]
theorem write_nil (m : Mem α) (off : Nat)
    : m.write off [] = m := by
  funext i
  simp [write]

theorem slice_write_same (m : Mem α) (off : Nat) (l : List α)
    : (m.write off l).slice off l.length = l := by
  apply List.ext_getElem
  . simp
  . intro i h1 h2
    rw [getElem_slice, write_getElem]

theorem slice_write_prefix (m : Mem α) (off : Nat) (l : List α) (len : Nat) (h : len ≤ l.length)
    : (m.write off l).slice off len = l.take len := by
  rw [← take_slice _ _ l.length _ h]
  rw [slice_write_same]

theorem slice_write_of_disjoint (m : Mem α) (off off' len : Nat) (l : List α)
    (h : off' + len ≤ off ∨ off + l.length ≤ off')
    : (m.write off l).slice off' len = m.slice off' len := by
  apply slice_congr
  intro i hi
  cases h with
  | inl h => exact write_of_lt _ _ (by omega)
  | inr h => exact write_of_ge _ _ (by omega)

theorem write_append (m : Mem α) (off : Nat) (l l' : List α)
    : m.write off (l ++ l') = (m.write off l).write (off + l.length) l' := by
  funext i
  unfold write
  by_cases h1 : i < off
  . have : i < off + l.length := by omega
    simp [h1, this]
  . by_cases h2 : i < off + l.length
    . have : i - off < l.length := by omega
      simp [h1, h2, this, List.getElem?_append_left this]
    . have : l.length ≤ i - off := by omega
      simp [h1, h2, List.getElem?_append_right this, List.getElem?_eq_none this, Nat.sub_sub]

theorem slice_write_append (m : Mem α) (len : Nat) (l : List α)
    : (m.write len l).slice 0 (len + l.length) = m.slice 0 len ++ l := by
  rw [slice_add, slice_write_of_disjoint _ _ _ _ _ (by omega), Nat.zero_add, slice_write_same]

-- a buffer to which more is received behind what is there
theorem slice_received {m : Mem α} {l l' : List α} (h : m.slice 0 l.length = l)
    : (m.write l.length l').slice 0 (l.length + l'.length) = l ++ l' := by
  rw [slice_write_append, h]

theorem write_write (m : Mem α) {off off' : Nat} (l l' : List α) (h : off' = off + l.length)
    : (m.write off l).write off' l' = m.write off (l ++ l') := by
  rw [write_append, h]

theorem write_cons (m : Mem α) (off : Nat) (a : α) (l : List α)
    : m.write off (a :: l) = (m.write off [a]).write (off + 1) l := by
  apply write_append m off [a] l

theorem set_eq_write (m : Mem α) (i : Nat) (a : α)
    : m.set i a = m.write i [a] := by
  funext j
  unfold set write
  rw [Function.update_apply]
  split
  . next h => simp [h]
  . next h =>
    split
    . rfl
    . rw [List.getElem?_eq_none]
      . rfl
      . simp
        omega

-- a buffer that is filled cell by cell
theorem write_cons_set (m : Mem α) (off : Nat) (a : α) (l : List α)
    : m.write off (a :: l) = (m.set off a).write (off + 1) l := by
  rw [write_cons, set_eq_write]

theorem foldl_write (f : Nat → List α) (k : Nat) (hk : ∀ i, (f i).length = k) (m : Mem α)
    (off n : Nat)
    : (List.range n).foldl (fun m i => m.write (off + k * i) (f i)) m
        =
      m.write off ((List.range n).flatMap f) := by
  induction n with
  | zero => simp
  | succ n ih =>
    have hlen : ((List.range n).flatMap f).length = k * n := by
      simp [List.length_flatMap, hk, Nat.mul_comm]
    rw [List.range_succ, List.foldl_append, ih]
    rw [List.flatMap_append, write_append, hlen]
    simp

theorem foldl_set (f : Nat → α) (m : Mem α) (n : Nat)
    : (List.range n).foldl (fun m i => m.set i (f i)) m = m.write 0 ((List.range n).map f) := by
  induction n with
  | zero => simp
  | succ n ih =>
    rw [List.range_succ, List.foldl_append, ih]
    rw [List.map_append, write_append]
    simp [set_eq_write]

@[simp]
theorem shift_apply (m : Mem α) (k i : Nat)
    : m.shift k i = m (k + i) := by
  rfl

theorem shift_shift (m : Mem α) (k k' : Nat)
    : (m.shift k).shift k' = m.shift (k + k') := by
  funext i
  simp [Nat.add_assoc]

@[simp]
theorem slice_shift (m : Mem α) (k off len : Nat)
    : (m.shift k).slice off len = m.slice (k + off) len := by
  simp [slice, Nat.add_assoc]

theorem splice_write_shift (m : Mem α) (k off : Nat) (l : List α)
    : m.splice k ((m.shift k).write off l) = m.write (k + off) l := by
  funext i
  unfold splice write
  by_cases h : i < k
  . have : i < k + off := by omega
    simp [h, this]
  . have hk : k + (i - k) = i := by omega
    have hlt : i - k < off ↔ i < k + off := by omega
    simp [h, hk, hlt, Nat.sub_sub]

theorem splice_shift (m : Mem α) (k : Nat)
    : m.splice k (m.shift k) = m := by
  funext i
  unfold splice shift
  split
  . rfl
  . congr
    omega

@[simp]
theorem splice_apply (m m' : Mem α) (k j : Nat)
    : m.splice k m' (k + j) = m' j := by
  unfold splice
  rw [if_neg (by omega), Nat.add_sub_cancel_left]

theorem splice_set (m m' : Mem α) (k j : Nat) (a : α)
    : (m.splice k m').set (k + j) a = m.splice k (m'.set j a) := by
  funext i
  unfold set splice
  rw [Function.update_apply]
  split
  . next heq =>
    rw [if_neg (by omega), Function.update_apply, if_pos (by omega)]
  . next hne =>
    split
    . rfl
    . rw [Function.update_apply, if_neg (by omega)]

end Mem
