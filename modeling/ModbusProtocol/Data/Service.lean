import ModbusProtocol.Data.Scan

/-!
This module contains what holds in every step of a run, and machines that do over whole runs what a simpler
one does.
-/

namespace Modbus

-- `P` holds of every input in the state it comes in.
def Throughout {ι σ ε : Type} (step : ι → σ → σ × List ε) (P : ι → σ → Prop) : List ι → σ → Prop
  | [], _ => True
  | input :: inputs, s => P input s ∧ Throughout step P inputs (step input s).1

instance Throughout.decidable {ι σ ε : Type} (step : ι → σ → σ × List ε) (P : ι → σ → Prop)
    [∀ input s, Decidable (P input s)] (inputs : List ι) (s : σ)
    : Decidable (Throughout step P inputs s) :=
  match inputs with
  | [] => isTrue trivial
  | input :: inputs =>
    have := decidable step P inputs (step input s).1
    inferInstanceAs (Decidable (_ ∧ _))

-- A machine does what a simpler one does: while `P` holds of its inputs, it keeps `Inv`, and its outputs are
-- calls of the simpler machine together with the answers that this gives.
structure Refines {ι τ ε σ κ ρ : Type} (spec : κ → σ → σ × List ρ) (step : ι → τ → τ × List ε)
    (view : τ → σ) (call : ε → κ) (answer : ε → ρ) (Inv : τ → Prop) (P : ι → τ → Prop) : Prop where
  inv : ∀ {input : ι} {t : τ}, Inv t → P input t → Inv (step input t).1
  step : ∀ {input : ι} {t : τ}, Inv t → P input t →
    transduce spec ((step input t).2.map call) (view t)
      = (view (step input t).1, (step input t).2.map answer)

theorem Refines.run {ι τ ε σ κ ρ : Type} {spec : κ → σ → σ × List ρ} {step : ι → τ → τ × List ε}
    {view : τ → σ} {call : ε → κ} {answer : ε → ρ} {Inv : τ → Prop} {P : ι → τ → Prop}
    {inputs : List ι} {t : τ} (h : Refines spec step view call answer Inv P) (hinv : Inv t)
    (hall : Throughout step P inputs t)
    : transduce spec ((transduce step inputs t).2.map call) (view t)
        = (view (transduce step inputs t).1, (transduce step inputs t).2.map answer) := by
  induction inputs generalizing t with
  | nil => rfl
  | cons input inputs ih =>
    have hstep := h.step hinv hall.1
    have hlater := ih (h.inv hinv hall.1) hall.2
    have hsplit : transduce step (input :: inputs) t
        = ((transduce step inputs (step input t).1).1,
          (step input t).2 ++ (transduce step inputs (step input t).1).2) := by
      rfl
    rw [hsplit, List.map_append, List.map_append, transduce_append, hstep, hlater]

end Modbus
