import ModbusProtocol.Data.Mem

/-!
This module contains arrays as the C abstract machine has them: an array has a size, and a cell of it that
nothing has been stored to has no value. A load or a store outside of the array and a load of a cell
without a value are faults, as is a conversion that loses digits where none are to be lost.
-/

inductive Fault where
  | outOfBounds
  | uninitialised
  | truncated
  deriving DecidableEq, Repr

structure Object (α : Type) where
  size : Nat
  cell : Mem (Option α)

namespace Object

variable {α : Type}

-- An array that has just been declared.
def fresh (size : Nat) : Object α :=
  ⟨size, fun _ => none⟩

-- The first `size` cells of a memory.
def ofMem (m : Mem α) (size : Nat) : Object α :=
  ⟨size, fun i => some (m i)⟩

def load (o : Object α) (i : Nat) : Except Fault α :=
  if i < o.size then
    match o.cell i with
    | none => .error .uninitialised
    | some a => .ok a
  else
    .error .outOfBounds

def store (o : Object α) (i : Nat) (a : α) : Except Fault (Object α) :=
  if i < o.size then
    .ok { o with cell := o.cell.set i (some a) }
  else
    .error .outOfBounds

def loads (o : Object α) (off : Nat) : Nat → Except Fault (List α)
  | 0 => .ok []
  | n + 1 => do
    let a ← o.load off
    let l ← o.loads (off + 1) n
    return a :: l

def memset (o : Object α) (a : α) (n : Nat) : Except Fault (Object α) :=
  (List.range n).foldlM (fun o i => o.store i a) o

-- A callee may be handed the first `n` cells.
def lend (o : Object α) (n : Nat) : Except Fault Unit :=
  if n ≤ o.size then .ok () else .error .outOfBounds

-- What a callee finds in the array, where `junk` is what happens to be in cells without a value.
def view (o : Object α) (junk : Mem α) : Mem α :=
  fun i => (o.cell i).getD (junk i)

-- The array once a callee has set its first `n` cells.
def filled (o : Object α) (m : Mem α) (n : Nat) : Object α :=
  { o with cell := fun i => if i < n then some (m i) else o.cell i }

-- The array once a callee may have changed what is in it.
def touched (o : Object α) (m : Mem α) : Object α :=
  { o with cell := fun i => (o.cell i).map fun _ => m i }

def narrow (n : Nat) : Except Fault UInt8 :=
  if n < 256 then .ok (UInt8.ofNat n) else .error .truncated

@[simp]
theorem ok_bind {β γ : Type} (b : β) (f : β → Except Fault γ)
    : (Except.ok b >>= f) = f b := by
  rfl

-- The first `n` cells of the array have the values that are in `m`.
structure Known (o : Object α) (m : Mem α) (n : Nat) : Prop where
  le_size : n ≤ o.size
  cell : ∀ i < n, o.cell i = some (m i)

theorem view_fresh (size : Nat) (junk : Mem α)
    : (fresh size).view junk = junk := by
  rfl

theorem view_write (size n : Nat) (a : α) (junk : Mem α)
    : (Object.mk size (Mem.write (fun _ => none) 0 (List.replicate n (some a)))).view junk
        = junk.write 0 (List.replicate n a) := by
  funext i
  unfold view Mem.write
  by_cases hi : i < n
  . simp [hi]
  . simp [hi]

theorem known_ofMem (m : Mem α) (n : Nat)
    : (ofMem m n).Known m n := by
  exact ⟨Nat.le_refl n, fun _ _ => rfl⟩

theorem known_zero (o : Object α) (m : Mem α)
    : o.Known m 0 := by
  constructor
  . apply Nat.zero_le
  . intro i hi
    contradiction

theorem Known.load {o : Object α} {m : Mem α} {n i : Nat} (h : o.Known m n) (hi : i < n)
    : o.load i = .ok (m i) := by
  unfold Object.load
  rw [if_pos (Nat.lt_of_lt_of_le hi h.le_size), h.cell i hi]

theorem Known.loads {o : Object α} {m : Mem α} {n off len : Nat} (h : o.Known m n) (hlen : off + len ≤ n)
    : o.loads off len = .ok (m.slice off len) := by
  induction len generalizing off with
  | zero => rfl
  | succ len ih =>
    unfold Object.loads
    rw [h.load (by omega), ih (by omega), Mem.slice_succ]
    rfl

-- A store into the known cells or right behind them.
theorem Known.store {o : Object α} {m : Mem α} {n i : Nat} (h : o.Known m n) (a : α) (hi : i ≤ n)
    (hsize : i < o.size)
    : ∃ o', o.store i a = .ok o' ∧ o'.size = o.size ∧ o'.Known (m.set i a) (max n (i + 1)) := by
  refine ⟨{ o with cell := o.cell.set i (some a) }, ?_, rfl, ?_, ?_⟩
  . unfold Object.store
    rw [if_pos hsize]
  . have hle := h.le_size
    dsimp only
    omega
  . intro j hj
    unfold Mem.set
    dsimp only
    rw [Function.update_apply, Function.update_apply]
    split
    . rfl
    . apply h.cell
      omega

theorem Known.mono {o : Object α} {m : Mem α} {n n' : Nat} (h : o.Known m n) (hle : n' ≤ n)
    : o.Known m n' := by
  exact ⟨Nat.le_trans hle h.le_size, fun i hi => h.cell i (Nat.lt_of_lt_of_le hi hle)⟩

theorem Known.congr {o : Object α} {m m' : Mem α} {n : Nat} (h : o.Known m n) (heq : m' = m)
    : o.Known m' n := by
  rw [heq]
  exact h

theorem known_filled {o : Object α} (m : Mem α) {n : Nat} (h : n ≤ o.size)
    : (o.filled m n).Known m n := by
  constructor
  . exact h
  . intro i hi
    exact if_pos hi

theorem Known.touched {o : Object α} {m : Mem α} {n : Nat} (h : o.Known m n) (m' : Mem α)
    : (o.touched m').Known m' n := by
  constructor
  . exact h.le_size
  . intro i hi
    unfold Object.touched
    dsimp only
    rw [h.cell i hi]
    rfl

theorem lend_ok {o : Object α} {n : Nat} (h : n ≤ o.size)
    : o.lend n = .ok () := by
  unfold lend
  rw [if_pos h]

theorem narrow_ok {n : Nat} (h : n < 256)
    : narrow n = .ok (UInt8.ofNat n) := by
  unfold narrow
  rw [if_pos h]

-- A loop over stores goes on like the loop over memory that it is in step with.
theorem foldlM_range {σ τ : Type} (R : Nat → σ → τ → Prop) {f : σ → Nat → Except Fault σ}
    {g : τ → Nat → τ} {s : σ} {t : τ} (n : Nat) (hinit : R 0 s t)
    (hstep : ∀ i < n, ∀ s t, R i s t → ∃ s', f s i = .ok s' ∧ R (i + 1) s' (g t i))
    : ∃ s', (List.range n).foldlM f s = .ok s' ∧ R n s' ((List.range n).foldl g t) := by
  induction n with
  | zero => exact ⟨s, rfl, hinit⟩
  | succ n ih =>
    obtain ⟨s', hrun, hrel⟩ := ih (fun i hi => hstep i (Nat.lt_succ_of_lt hi))
    obtain ⟨s'', hlast, hrel'⟩ := hstep n (Nat.lt_succ_self n) _ _ hrel
    refine ⟨s'', ?_, ?_⟩
    . rw [List.range_succ, List.foldlM_append, hrun]
      simp only [List.foldlM_cons, List.foldlM_nil]
      exact (congrArg (· >>= pure) hlast)
    . rw [List.range_succ, List.foldl_append]
      exact hrel'

theorem memset_fresh (a : α) {n size : Nat} (h : n ≤ size)
    : (fresh size).memset a n
        = .ok ⟨size, Mem.write (fun _ => none) 0 (List.replicate n (some a))⟩ := by
  have hloop := @foldlM_range _ _ (fun _ (o : Object α) (m : Mem (Option α)) => o = ⟨size, m⟩)
    (fun o i => o.store i a) (fun m i => m.set i (some a)) (fresh size) (fun _ => none) n rfl
  obtain ⟨o, hrun, ho⟩ := hloop (by
    intro i hi s t hs
    refine ⟨_, ?_, rfl⟩
    rw [hs]
    unfold Object.store
    rw [if_pos (Nat.lt_of_lt_of_le hi h)])
  unfold memset
  rw [hrun, ho, Mem.foldl_set]
  congr
  rw [List.map_const', List.length_range]

end Object
