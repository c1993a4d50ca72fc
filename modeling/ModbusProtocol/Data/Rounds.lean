import Mathlib.Order.Basic

/-!
This module contains loops without a condition: a round of such a loop fails, stops the loop or goes on with
another state.
-/

inductive Round (σ ρ : Type) where
  | stops (result : ρ)
  | goesOn (state : σ)
  deriving DecidableEq, Repr

namespace Round

variable {σ ρ ε : Type}

-- `for (;;)`, for so many rounds. There is no result as long as it has not stopped.
def loop (round : σ → Except ε (Round σ ρ)) : Nat → σ → Option (Except ε (ρ × σ))
  | 0, _ => none
  | rounds + 1, s =>
    match round s with
    | .error e => some (.error e)
    | .ok (.stops result) => some (.ok (result, s))
    | .ok (.goesOn s) => loop round rounds s

variable {round : σ → Except ε (Round σ ρ)}

-- A loop that has stopped would not go on if it were given more rounds.
theorem loop_mono {n n' : Nat} {s : σ} {r : Except ε (ρ × σ)} (h : loop round n s = some r) (hle : n ≤ n')
    : loop round n' s = some r := by
  induction n generalizing n' s with
  | zero => contradiction
  | succ n ih =>
    cases n' with
    | zero => contradiction
    | succ n' =>
      unfold loop at h ⊢
      split
      . next heq =>
        rw [heq] at h
        exact h
      . next heq =>
        rw [heq] at h
        exact h
      . next heq =>
        rw [heq] at h
        exact ih h (Nat.le_of_succ_le_succ hle)

-- Every round keeps the invariant, and it stops with what is wanted or comes closer to the end.
theorem loop_stops {Inv : σ → Prop} {Post : ρ → σ → Prop} (measure : σ → Nat)
    (hround : ∀ s, Inv s → (∃ result, round s = .ok (.stops result) ∧ Post result s) ∨
      ∃ s', round s = .ok (.goesOn s') ∧ Inv s' ∧ measure s' < measure s)
    {n : Nat} {s : σ} (hinv : Inv s) (hn : measure s < n)
    : ∃ result s', loop round n s = some (.ok (result, s')) ∧ Inv s' ∧ Post result s' := by
  induction n generalizing s with
  | zero => contradiction
  | succ n ih =>
    unfold loop
    obtain ⟨result, heq, hpost⟩ | ⟨s', heq, hinv', hlt⟩ := hround s hinv
    . rw [heq]
      exact ⟨result, s, rfl, hinv, hpost⟩
    . rw [heq]
      exact ih hinv' (Nat.lt_of_lt_of_le hlt (Nat.le_of_lt_succ hn))

end Round
