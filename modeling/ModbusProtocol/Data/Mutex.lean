import Mathlib.Logic.Function.Basic
import Mathlib.Order.Basic

/-!
This module contains mutexes that several threads lock. Which mutexes a thread holds follows from what it is
doing, and as long as both agree a mutex excludes the others.
-/

inductive Mutex (τ : Type) where
  -- not initialised yet, or destroyed
  | absent
  | free
  | held (thread : τ)
  deriving DecidableEq, Repr

namespace Mutex

variable {τ ι α : Type}

-- `heldBy` says which mutexes a thread holds that is doing this.
def Agree (heldBy : α → List ι) (locks : ι → Mutex τ) (doing : τ → α) : Prop :=
  ∀ l t, locks l = .held t ↔ l ∈ heldBy (doing t)

namespace Agree

variable {heldBy : α → List ι} {locks : ι → Mutex τ} {doing : τ → α}
  {t : τ} {l : ι} {a : α}

theorem unique (h : Agree heldBy locks doing) {t' : τ} (ht : l ∈ heldBy (doing t))
    (ht' : l ∈ heldBy (doing t'))
    : t = t' := by
  have heq := ((h l t).mpr ht).symm.trans ((h l t').mpr ht')
  injection heq

-- A mutex that nobody holds may be initialised or destroyed.
theorem replace [DecidableEq ι] (h : Agree heldBy locks doing) (hheld : ∀ t, l ∉ heldBy (doing t)) {m : Mutex τ}
    (hm : ∀ t, m ≠ .held t)
    : Agree heldBy (Function.update locks l m) doing := by
  intro l' t'
  by_cases hl : l' = l
  . rw [hl, Function.update_self]
    exact iff_of_false (hm t') (hheld t')
  . rw [Function.update_of_ne hl]
    exact h l' t'

variable [DecidableEq τ]

-- Something that concerns no mutex.
theorem turn (h : Agree heldBy locks doing) (ha : heldBy a = heldBy (doing t))
    : Agree heldBy locks (Function.update doing t a) := by
  intro l' t'
  by_cases ht : t' = t
  . rw [ht, Function.update_self, ha]
    exact h l' t
  . rw [Function.update_of_ne ht]
    exact h l' t'

variable [DecidableEq ι]

theorem lock (h : Agree heldBy locks doing) (hfree : locks l = .free)
    (ha : ∀ l', l' ∈ heldBy a ↔ l' = l ∨ l' ∈ heldBy (doing t))
    : Agree heldBy (Function.update locks l (.held t)) (Function.update doing t a) := by
  intro l' t'
  by_cases hl : l' = l
  . rw [hl, Function.update_self]
    by_cases ht : t' = t
    . rw [ht, Function.update_self, ha]
      simp
    . rw [Function.update_of_ne ht]
      constructor
      . intro heq
        injection heq with heq
        exact absurd heq.symm ht
      . intro hmem
        have hheld := (h l t').mpr hmem
        rw [hfree] at hheld
        contradiction
  . rw [Function.update_of_ne hl]
    by_cases ht : t' = t
    . rw [ht, Function.update_self, ha, h l' t]
      simp [hl]
    . rw [Function.update_of_ne ht]
      exact h l' t'

theorem unlock (h : Agree heldBy locks doing) (hheld : locks l = .held t)
    (ha : ∀ l', l' ∈ heldBy a ↔ l' ≠ l ∧ l' ∈ heldBy (doing t))
    : Agree heldBy (Function.update locks l .free) (Function.update doing t a) := by
  intro l' t'
  by_cases hl : l' = l
  . rw [hl, Function.update_self]
    by_cases ht : t' = t
    . rw [ht, Function.update_self, ha]
      simp
    . rw [Function.update_of_ne ht, ← h l t', hheld]
      simp [Ne.symm ht]
  . rw [Function.update_of_ne hl]
    by_cases ht : t' = t
    . rw [ht, Function.update_self, ha, h l' t]
      simp [hl]
    . rw [Function.update_of_ne ht]
      exact h l' t'

end Agree

-- Who waits for somebody waits for somebody of a lower rank, and in the end for somebody who does not wait.
theorem exists_ready {Active Ready : τ → Prop} (rank : τ → Nat)
    (h : ∀ t, Active t → Ready t ∨ ∃ t', Active t' ∧ rank t' < rank t) {t : τ} (ht : Active t)
    : ∃ t', Ready t' := by
  induction hrank : rank t using Nat.strongRecOn generalizing t with
  | ind r ih =>
    obtain hready | ⟨t', ht', hlt⟩ := h t ht
    . exact ⟨t, hready⟩
    . rw [hrank] at hlt
      exact ih (rank t') hlt ht' rfl

end Mutex
