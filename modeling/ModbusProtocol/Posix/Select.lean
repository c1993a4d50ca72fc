import ModbusProtocol.Posix.Line

/-!
This module contains what calls of select() are about: the descriptors that a function puts into the sets
it hands to them. A function that keeps this record is the function of the same name without it, which its
`erase` lemma says.
-/

namespace Posix

@[simp] abbrev fdSetSize : Int := 1024

structure Selected (α : Type) where
  sets : List Int
  result : α

def Selected.after {α : Type} (sets : List Int) (s : Selected α) : Selected α :=
  ⟨sets ++ s.sets, s.result⟩

-- FD_SET is not defined for any other descriptor.
def InRange (sets : List Int) : Prop :=
  ∀ fd ∈ sets, fd < fdSetSize

-- What is owed to a descriptor that select() may have to wait for: it gets into no set when it is out of
-- range, and there is an error instead.
structure Guards (fd : Int) (sets : List Int) (error : Prop) : Prop where
  inRange : InRange sets
  rejected : fdSetSize ≤ fd → error

-- Only `fd` is put into a set.
def Only {α : Type} (fd : Int) (s : Selected α) : Prop :=
  ∀ d ∈ s.sets, d = fd

instance (sets : List Int) : Decidable (InRange sets) := by
  unfold InRange
  infer_instance

theorem inRange_append (sets sets' : List Int)
    : InRange (sets ++ sets') ↔ InRange sets ∧ InRange sets' := by
  exact List.forall_mem_append

theorem Only.none {α : Type} {fd : Int} {a : α}
    : Only fd ⟨[], a⟩ := by
  intro d hd
  contradiction

theorem Only.append {α β : Type} {fd : Int} {s : Selected α} {s' : Selected β} {sets : List Int} {b : β}
    (h : Only fd s) (h' : Only fd s') (hsets : sets = s.sets ++ s'.sets)
    : Only fd ⟨sets, b⟩ := by
  intro d hd
  rw [hsets, List.mem_append] at hd
  cases hd with
  | inl hd => exact h d hd
  | inr hd => exact h' d hd

theorem Only.single {α : Type} (fd : Int) (a : α)
    : Only fd ⟨[fd], a⟩ := by
  intro d hd
  exact List.mem_singleton.mp hd

theorem Only.after {α : Type} {fd : Int} {s : Selected α} (h : Only fd s)
    : Only fd (s.after [fd]) := by
  exact (Only.single fd s.result).append h rfl

theorem Only.inRange_iff {α : Type} {fd : Int} {s : Selected α} (h : Only fd s)
    : InRange s.sets ↔ fd < fdSetSize ∨ s.sets = [] := by
  constructor
  . intro hrange
    cases hsets : s.sets with
    | nil => exact .inr rfl
    | cons d sets =>
      left
      have hmem : d ∈ s.sets := by simp [hsets]
      rw [← h d hmem]
      exact hrange d hmem
  . intro hor d hd
    cases hor with
    | inl hfd =>
      rw [h d hd]
      exact hfd
    | inr hnil =>
      rw [hnil] at hd
      contradiction

theorem Only.guards_iff {α : Type} {fd : Int} {s : Selected α} {error : Prop} (h : Only fd s)
    : Guards fd s.sets error ↔ fd < fdSetSize ∨ (s.sets = [] ∧ error) := by
  have hrange := h.inRange_iff
  constructor
  . intro hguards
    by_cases hfd : fd < fdSetSize
    . exact .inl hfd
    . have hnil := (hrange.mp hguards.inRange).resolve_left hfd
      exact .inr ⟨hnil, hguards.rejected (Int.not_lt.mp hfd)⟩
  . intro hor
    constructor
    . exact hrange.mpr (hor.imp_right And.left)
    . intro hfd
      exact (hor.resolve_left (Int.not_lt.mpr hfd)).2

-- Writing `len` bytes fails, or draining them does, before it comes to a full output buffer.
def Fails : List Turn → Nat → Prop
  | [], _ => False
  | turn :: turns, len =>
    if len = 0 then
      turn.outcome ≠ .done
    else
      match turn.outcome with
      | .again => False
      | .intr => Fails turns len
      | .done => Fails turns (len - (turn.limit + 1))
      | .hangup => True
      | .error => True

theorem fails_zero (line : Line)
    : Fails line.turns 0 ↔ line.drain.1 = false := by
  unfold Line.drain Line.turn
  cases line.turns with
  | nil => simp [Fails]
  | cons turn turns => simp [Fails]

end Posix
