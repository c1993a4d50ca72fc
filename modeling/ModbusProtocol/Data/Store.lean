import Mathlib.Data.List.Induction
import ModbusProtocol.Data.Scan

/-!
This module contains stores: machines with cells of which each holds what has been written to it last.
-/

namespace Modbus

variable {ι σ ε α β : Type}

-- A step of the machine writes to a cell what `written` says, or leaves it alone.
structure Stores (step : ι → σ → σ × List ε) (cell : σ → α → β) (written : ι → α → Option β) : Prop where
  cell : ∀ input s a, cell (step input s).1 a = (written input a).getD (cell s a)

def lastWritten (written : ι → α → Option β) (inputs : List ι) (a : α) : Option β :=
  (inputs.filterMap (written · a)).getLast?

theorem lastWritten_snoc (written : ι → α → Option β) (inputs : List ι) (input : ι) (a : α)
    : lastWritten written (inputs ++ [input]) a = (written input a).or (lastWritten written inputs a) := by
  unfold lastWritten
  rw [List.filterMap_append]
  cases hwritten : written input a with
  | none => simp [hwritten]
  | some b => simp [hwritten]

theorem Stores.run {step : ι → σ → σ × List ε} {cell : σ → α → β} {written : ι → α → Option β}
    (h : Stores step cell written) (inputs : List ι) (s : σ) (a : α)
    : cell (transduce step inputs s).1 a = (lastWritten written inputs a).getD (cell s a) := by
  induction inputs using List.reverseRecOn with
  | nil => rfl
  | append_singleton inputs input ih =>
    rw [transduce_append, transduce_singleton, lastWritten_snoc]
    dsimp only
    rw [h.cell, ih]
    cases written input a with
    | none => rfl
    | some b => rfl

-- A machine that has one output for each input: where one of them stands, so does the other.
theorem transduce_split {step : ι → σ → σ × List ε} (hone : ∀ input s, (step input s).2.length = 1)
    {before after : List ι} {input : ι} {s s' : σ} {before' after' : List ε} {output : ε}
    (h : transduce step (before ++ input :: after) s = (s', before' ++ output :: after'))
    (hlen : before.length = before'.length)
    : (step input (transduce step before s).1).2 = [output] := by
  have hlength : ∀ inputs s, (transduce step inputs s).2.length = inputs.length := by
    intro inputs
    induction inputs with
    | nil =>
      intro s
      rfl
    | cons input inputs ih =>
      intro s
      unfold transduce
      dsimp only
      rw [List.length_append, hone, ih, List.length_cons, Nat.add_comm]
  have houtputs := congrArg Prod.snd h
  rw [List.append_cons, transduce_append, transduce_append, transduce_singleton] at houtputs
  dsimp only at houtputs
  rw [List.append_assoc] at houtputs
  have hrest := (List.append_inj houtputs (by rw [hlength, hlen])).2
  rw [← List.singleton_append] at hrest
  exact (List.append_inj hrest (hone _ _)).1

end Modbus
