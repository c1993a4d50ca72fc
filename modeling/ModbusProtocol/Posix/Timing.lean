import Mathlib.Algebra.GroupWithZero.Nat
import ModbusProtocol.Posix.Lemmas

/-!
This module contains lines on which everything that is still to come arrives, and is read, before some point
in time.
-/

namespace Posix

namespace Line

-- How long the coming calls take in all, apart from waiting.
def delay (l : Line) : Nat :=
  (l.turns.map Turn.delay).sum

-- No call fails, and whatever the calls take, all of the incoming bytes are there before `limit`.
structure InTime (l : Line) (limit : Nat) : Prop where
  turns : ∀ turn ∈ l.turns, turn.outcome = .done ∨ turn.outcome = .intr
  now : l.now + l.delay < limit
  arrivals : ∀ arrival ∈ l.incoming, arrival.time + l.delay < limit

theorem turn_delay (l : Line)
    : l.turn.2.now + l.turn.2.delay = l.now + l.delay ∧ l.turn.2.delay ≤ l.delay := by
  unfold turn
  cases hturns : l.turns with
  | nil => simp
  | cons turn turns =>
    simp [delay, hturns, pass]
    omega

theorem InTime.turn {l : Line} {limit : Nat} (h : InTime l limit)
    : InTime l.turn.2 limit := by
  have htook := turn_took l
  obtain ⟨hsum, hle⟩ := turn_delay l
  have hincoming := htook.incoming
  rw [List.length_nil, List.drop_zero] at hincoming
  constructor
  . intro turn hturn
    apply h.turns
    exact htook.turns.subset hturn
  . have hnow := h.now
    omega
  . intro arrival hmem
    rw [hincoming] at hmem
    have harrival := h.arrivals arrival hmem
    omega

theorem InTime.turn_outcome {l : Line} {limit : Nat} (h : InTime l limit)
    : l.turn.1.outcome = .done ∨ l.turn.1.outcome = .intr := by
  unfold Line.turn
  split
  . exact .inl rfl
  . next turn turns hturns =>
    apply h.turns
    simp [hturns]

theorem InTime.wake {l : Line} {limit : Nat} {next : Arrival} {later : List Arrival}
    (h : InTime l limit) (hnext : l.incoming = next :: later)
    : InTime (l.wake next.time) limit := by
  have hnow := h.now
  have hfirst := h.arrivals next (by simp [hnext])
  constructor
  . exact h.turns
  . change max l.now next.time + l.delay < limit
    omega
  . exact h.arrivals

theorem InTime.deliver {l : Line} {limit : Nat} (h : InTime l limit) (k : Nat)
    : InTime (l.deliver k).2 limit := by
  constructor
  . exact h.turns
  . exact h.now
  . intro arrival hmem
    apply h.arrivals
    exact List.mem_of_mem_drop hmem

-- A wait up to `limit` or beyond ends with something to be read, or is interrupted.
theorem InTime.select {l : Line} {limit timeout : Nat} (h : InTime l limit)
    (hlimit : limit ≤ l.now + timeout) (hincoming : l.incoming ≠ [])
    : InTime (l.select timeout).2 limit ∧
      ((l.select timeout).1 = .ready ∧ 0 < (l.select timeout).2.arrived ∨
        (l.select timeout).1 = .intr) := by
  have hturn := h.turn
  have hnow : l.now ≤ l.turn.2.now := by
    have hdelay := turn_delay l
    omega
  have heq := (turn_took l).incoming
  rw [List.length_nil, List.drop_zero] at heq
  unfold Line.select
  dsimp only
  cases h.turn_outcome with
  | inr hintr =>
    rw [hintr]
    exact ⟨hturn, .inr rfl⟩
  | inl hdone =>
    rw [hdone]
    cases hnext : l.turn.2.incoming with
    | nil =>
      rw [← heq, hnext] at hincoming
      contradiction
    | cons next later =>
      have hfirst := hturn.arrivals next (by simp [hnext])
      dsimp only
      rw [if_pos (by omega)]
      refine ⟨hturn.wake hnext, .inl ⟨rfl, ?_⟩⟩
      apply arrived_wake_pos hnext

theorem arrived_pos_iff (l : Line)
    : 0 < l.arrived ↔ ∃ next later, l.incoming = next :: later ∧ next.time ≤ l.now := by
  unfold arrived
  cases hnext : l.incoming with
  | nil => simp
  | cons next later =>
    by_cases htime : next.time ≤ l.now
    . simp [htime]
    . simp [htime]

-- Time only adds to what has arrived.
theorem arrived_turn {l : Line} (h : 0 < l.arrived)
    : 0 < l.turn.2.arrived := by
  rw [arrived_pos_iff] at h ⊢
  obtain ⟨next, later, hnext, htime⟩ := h
  have hdelay := turn_delay l
  have heq := (turn_took l).incoming
  rw [List.length_nil, List.drop_zero, hnext] at heq
  exact ⟨next, later, heq, by omega⟩

theorem InTime.read {l : Line} {limit n : Nat} (h : InTime l limit) (harrived : 0 < l.arrived)
    (hn : n ≠ 0)
    : InTime (l.read n).2 limit ∧
      ((l.read n).1 = .intr ∨ ∃ chunk, (l.read n).1 = .bytes chunk) := by
  have hturn := h.turn
  have hpos := arrived_turn harrived
  unfold Line.read
  dsimp only
  cases h.turn_outcome with
  | inr hintr =>
    rw [hintr]
    exact ⟨hturn, .inl rfl⟩
  | inl hdone =>
    rw [hdone]
    dsimp only
    rw [if_neg (by omega)]
    refine ⟨hturn.deliver _, .inr ⟨_, rfl⟩⟩

end Line

end Posix
