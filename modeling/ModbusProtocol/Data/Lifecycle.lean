import ModbusProtocol.Data.Ledger

/-!
This module contains components that acquire resources when they are started, and give them back when they
are stopped or their start fails. From what a single start, step and stop does follows how the resources
are balanced over any sequence of them.
-/

namespace Ledger

structure Lifecycle (α : Type) where
  State : Type
  Start : Type
  Step : Type
  initial : State
  started : State → Bool
  -- zero when it succeeds
  start : Start → State → Int × State × List (Act α)
  -- what happens on its own, or on other calls
  step : Step → State → State × List (Act α)
  stop : State → State × List (Act α)
  -- what has to have been given back in a state that is not started
  owes : State → α → Prop

namespace Lifecycle

variable {α : Type} [DecidableEq α] (chosen : α → Prop) (l : Lifecycle α)

inductive Op where
  | start (arg : l.Start)
  | step (arg : l.Step)
  | stop

def perform : Op l → l.State → l.State × List (Act α)
  | .start arg, state => (l.start arg state).2
  | .step arg, state => l.step arg state
  | .stop, state => l.stop state

def run : List (Op l) → l.State → l.State × List (Act α)
  | [], state => (state, [])
  | op :: ops, state =>
    let (state, acts) := l.perform op state
    let (state, later) := run ops state
    (state, acts ++ later)

-- The acts lead to a state in which what it says to hold is what is held.
def Leads (Holds : l.State → Finset α → Prop) (held : Finset α) (result : l.State × List (Act α))
    : Prop :=
  Fresh chosen held result.2
    → Owned chosen held result.2 ∧ Holds result.1 (after held result.2)

structure Lawful (Holds : l.State → Finset α → Prop) : Prop where
  initial : Holds l.initial ∅
  start : ∀ state held arg, Holds state held → l.started state = false
    → l.Leads chosen Holds held (l.start arg state).2
  started : ∀ state arg, l.started state = false
    → ((l.start arg state).1 = 0 ↔ l.started (l.start arg state).2.1 = true)
  busy : ∀ state arg, l.started state = true → l.start arg state = (-1, state, [])
  step : ∀ state held arg, Holds state held → l.Leads chosen Holds held (l.step arg state)
  stop : ∀ state held, Holds state held → l.started state = true
    → l.Leads chosen Holds held (l.stop state)
  stopped : ∀ state held, Holds state held → l.started (l.stop state).1 = false
  idle : ∀ state, l.started state = false → l.stop state = (state, [])
  owes : ∀ state held, Holds state held → l.started state = false
    → ∀ a, l.owes state a → a ∉ held
  ready : ∀ state held, Holds state held → l.started state = false
    → ∃ arg, (l.start arg state).1 = 0 ∧ Fresh chosen held (l.start arg state).2.2

-- What is said of every sequence of calls, given that what the other side chooses has been free.
structure Balanced : Prop where
  owned : ∀ ops, Fresh chosen ∅ (l.run ops l.initial).2 → Owned chosen ∅ (l.run ops l.initial).2
  released : ∀ ops, Fresh chosen ∅ (l.run ops l.initial).2
    → l.started (l.run ops l.initial).1 = false
    → ∀ a, l.owes (l.run ops l.initial).1 a
    → (l.run ops l.initial).2.count (.release a) = (l.run ops l.initial).2.count (.acquire a)
  -- a start says whether it has succeeded, and a stop always does
  starts : ∀ ops arg, l.started (l.run ops l.initial).1 = false
    → ((l.start arg (l.run ops l.initial).1).1 = 0
      ↔ l.started (l.start arg (l.run ops l.initial).1).2.1 = true)
  stops : ∀ ops, Fresh chosen ∅ (l.run ops l.initial).2
    → l.started (l.stop (l.run ops l.initial).1).1 = false
  busy : ∀ ops arg, l.started (l.run ops l.initial).1 = true
    → l.start arg (l.run ops l.initial).1 = (-1, (l.run ops l.initial).1, [])
  failed : ∀ ops arg, l.started (l.run ops l.initial).1 = false
    → (l.start arg (l.run ops l.initial).1).1 ≠ 0
    → l.stop (l.start arg (l.run ops l.initial).1).2.1
      = ((l.start arg (l.run ops l.initial).1).2.1, [])
  again : ∀ ops, Fresh chosen ∅ (l.run ops l.initial).2
    → l.started (l.run ops l.initial).1 = false
    → ∃ arg, (l.start arg (l.run ops l.initial).1).1 = 0 ∧
      Fresh chosen (after ∅ (l.run ops l.initial).2) (l.start arg (l.run ops l.initial).1).2.2
  idempotent : ∀ ops, Fresh chosen ∅ (l.run ops l.initial).2
    → l.stop (l.stop (l.run ops l.initial).1).1 = ((l.stop (l.run ops l.initial).1).1, [])

variable {chosen} {l} {Holds : l.State → Finset α → Prop} {held held' : Finset α}

theorem Leads.of_carries {result : l.State × List (Act α)}
    (h : Carries chosen held result.2 held') (hholds : Holds result.1 held')
    : l.Leads chosen Holds held result := by
  intro hfresh
  rw [h.after hfresh]
  exact ⟨h.owned hfresh, hholds⟩

theorem Leads.of_passing {result : l.State × List (Act α)} (h : Passing chosen held result.2)
    (hholds : Holds result.1 held)
    : l.Leads chosen Holds held result := by
  apply Leads.of_carries h.carries hholds

theorem Leads.nil {state : l.State} (hholds : Holds state held)
    : l.Leads chosen Holds held (state, []) := by
  apply Leads.of_passing .nil hholds

namespace Lawful

theorem perform (h : l.Lawful chosen Holds) {state : l.State} (hholds : Holds state held) (op : Op l)
    : l.Leads chosen Holds held (l.perform op state) := by
  cases op with
  | start arg =>
    change l.Leads chosen Holds held (l.start arg state).2
    cases hstarted : l.started state with
    | false => exact h.start state held arg hholds hstarted
    | true =>
      rw [h.busy state arg hstarted]
      exact Leads.nil hholds
  | step arg => exact h.step state held arg hholds
  | stop =>
    change l.Leads chosen Holds held (l.stop state)
    cases hstarted : l.started state with
    | false =>
      rw [h.idle state hstarted]
      exact Leads.nil hholds
    | true => exact h.stop state held hholds hstarted

theorem run (h : l.Lawful chosen Holds) {state : l.State} (hholds : Holds state held)
    (ops : List (Op l))
    : l.Leads chosen Holds held (l.run ops state) := by
  induction ops generalizing state held with
  | nil => exact Leads.nil hholds
  | cons op ops ih =>
    intro hfresh
    unfold Lifecycle.run at hfresh ⊢
    dsimp only at hfresh ⊢
    rw [fresh_append] at hfresh
    rw [owned_append, after_append]
    obtain ⟨howned, hholds'⟩ := h.perform hholds op hfresh.1
    obtain ⟨howned', hholds''⟩ := ih hholds' hfresh.2
    exact ⟨⟨howned, howned'⟩, hholds''⟩

theorem balanced (h : l.Lawful chosen Holds)
    : l.Balanced chosen := by
  have hrun := fun ops => h.run h.initial ops
  constructor
  . intro ops hfresh
    exact (hrun ops hfresh).1
  . intro ops hfresh hstarted a howes
    obtain ⟨howned, hholds⟩ := hrun ops hfresh
    have hnot := h.owes _ _ hholds hstarted a howes
    have hcount := count_release hfresh howned a
    rw [if_neg hnot, if_neg (Finset.notMem_empty a)] at hcount
    exact hcount
  . intro ops arg hstarted
    exact h.started _ arg hstarted
  . intro ops hfresh
    exact h.stopped _ _ (hrun ops hfresh).2
  . intro ops arg hstarted
    exact h.busy _ arg hstarted
  . intro ops arg hstarted hfailed
    apply h.idle
    apply Bool.eq_false_of_not_eq_true
    rw [← h.started _ arg hstarted]
    exact hfailed
  . intro ops hfresh hstarted
    exact h.ready _ _ (hrun ops hfresh).2 hstarted
  . intro ops hfresh
    apply h.idle
    exact h.stopped _ _ (hrun ops hfresh).2

end Lawful

-- A component that wraps another one, and starts it from the beginning each time.
def anew (l : Lifecycle α) (Start : Type) (start : Start → l.State → Int × l.State × List (Act α))
    : Lifecycle α :=
  { l with Start := Start, start := start }

theorem Lawful.anew (h : l.Lawful chosen Holds) {Start : Type}
    {start : Start → l.State → Int × l.State × List (Act α)}
    (hinitial : l.started l.initial = false)
    (hnone : ∀ state held, Holds state held → l.started state = false → held = ∅)
    (hstart : ∀ state arg, l.started state = false
      → start arg state = (-1, state, []) ∨ ∃ arg', start arg state = l.start arg' l.initial)
    (hbusy : ∀ state arg, l.started state = true → start arg state = (-1, state, []))
    (hready : ∀ state, l.started state = false
      → ∃ arg, (start arg state).1 = 0 ∧ Fresh chosen ∅ (start arg state).2.2)
    : (l.anew Start start).Lawful chosen Holds := by
  constructor
  . exact h.initial
  . intro state held arg hholds hstarted
    change Leads chosen l Holds held (start arg state).2
    obtain heq | ⟨arg', heq⟩ := hstart state arg hstarted
    . rw [heq]
      exact Leads.nil hholds
    . rw [heq, hnone state held hholds hstarted]
      exact h.start l.initial ∅ arg' h.initial hinitial
  . intro state arg hstarted
    change (start arg state).1 = 0 ↔ l.started (start arg state).2.1 = true
    obtain heq | ⟨arg', heq⟩ := hstart state arg hstarted
    . have hstarted' : l.started state = false := hstarted
      simp [heq, hstarted']
    . rw [heq]
      exact h.started l.initial arg' hinitial
  . exact hbusy
  . exact h.step
  . exact h.stop
  . exact h.stopped
  . exact h.idle
  . exact h.owes
  . intro state held hholds hstarted
    rw [hnone state held hholds hstarted]
    exact hready state hstarted

end Lifecycle

end Ledger
