import Mathlib.Data.List.Induction
import ModbusProtocol.Data.Scan

/-!
This module contains logs of what is done for several callers, and orders in which the calls of several
callers are executed one after the other.
-/

namespace Modbus

variable {κ ε : Type} [DecidableEq κ]

-- What a log says about one caller.
def entriesOf (k : κ) (log : List (κ × ε)) : List ε :=
  log.filterMap fun (j, entry) => if j = k then some entry else none

theorem entriesOf_append (k : κ) (log log' : List (κ × ε))
    : entriesOf k (log ++ log') = entriesOf k log ++ entriesOf k log' := by
  apply List.filterMap_append

theorem entriesOf_same (k : κ) (entries : List ε)
    : entriesOf k (entries.map (k, ·)) = entries := by
  unfold entriesOf
  rw [List.filterMap_map]
  simp

theorem entriesOf_other {j k : κ} (h : j ≠ k) (entries : List ε)
    : entriesOf k (entries.map (j, ·)) = [] := by
  unfold entriesOf
  rw [List.filterMap_map]
  simp [h]

theorem entriesOf_cons_same (k : κ) (entry : ε) (log : List (κ × ε))
    : entriesOf k ((k, entry) :: log) = entry :: entriesOf k log := by
  unfold entriesOf
  rw [List.filterMap_cons_some]
  simp

theorem entriesOf_cons_other {j k : κ} (h : j ≠ k) (entry : ε) (log : List (κ × ε))
    : entriesOf k ((j, entry) :: log) = entriesOf k log := by
  unfold entriesOf
  rw [List.filterMap_cons_none]
  simp [h]

theorem mem_entriesOf {k : κ} {log : List (κ × ε)} {entry : ε}
    : entry ∈ entriesOf k log ↔ (k, entry) ∈ log := by
  unfold entriesOf
  rw [List.mem_filterMap]
  constructor
  . rintro ⟨⟨j, entry'⟩, hmem, hentry⟩
    dsimp only at hentry
    split at hentry
    . next hj =>
      injection hentry with hentry
      rw [← hj, ← hentry]
      exact hmem
    . contradiction
  . intro hmem
    exact ⟨_, hmem, by simp⟩

theorem entriesOf_split {k : κ} {log before after : List (κ × ε)} {entry : ε}
    (h : log = before ++ (k, entry) :: after)
    : entriesOf k log = entriesOf k before ++ entry :: entriesOf k after := by
  rw [h, entriesOf_append, entriesOf_cons_same]

theorem entriesOf_relabel {κ' : Type} [DecidableEq κ'] {label : κ → κ'} {k : κ} {log : List (κ × ε)}
    (h : ∀ entry ∈ log, label entry.1 = label k → entry.1 = k)
    : entriesOf (label k) (log.map fun (j, entry) => (label j, entry)) = entriesOf k log := by
  unfold entriesOf
  rw [List.filterMap_map]
  apply List.filterMap_congr
  intro ⟨j, entry⟩ hmem
  by_cases hj : j = k
  . simp [hj]
  . have hlabel : label j ≠ label k := fun heq => hj (h _ hmem heq)
    simp [hj, hlabel]

-- The entries of a log, each with its caller and its number among those of the caller.
def placesFrom (before : List (κ × ε)) : List (κ × ε) → List (κ × Nat)
  | [] => []
  | entry :: later =>
    (entry.1, (entriesOf entry.1 before).length) :: placesFrom (before ++ [entry]) later

def places (log : List (κ × ε)) : List (κ × Nat) :=
  placesFrom [] log

theorem placesFrom_append (before log log' : List (κ × ε))
    : placesFrom before (log ++ log') = placesFrom before log ++ placesFrom (before ++ log) log' := by
  induction log generalizing before with
  | nil =>
    rw [List.append_nil]
    rfl
  | cons entry log ih =>
    change _ :: placesFrom (before ++ [entry]) (log ++ log') = _
    rw [ih, List.append_assoc, List.singleton_append]
    rfl

theorem places_append (log log' : List (κ × ε))
    : places (log ++ log') = places log ++ placesFrom log log' := by
  apply placesFrom_append

theorem entriesOf_placesFrom (k : κ) (before log : List (κ × ε))
    : entriesOf k (placesFrom before log)
        = List.range' (entriesOf k before).length (entriesOf k log).length := by
  induction log generalizing before with
  | nil => rfl
  | cons entry log ih =>
    obtain ⟨j, entry⟩ := entry
    unfold placesFrom
    by_cases hj : j = k
    . subst hj
      have hlater := ih (before ++ [(j, entry)])
      rw [entriesOf_append, entriesOf_cons_same, List.length_append] at hlater
      rw [entriesOf_cons_same, entriesOf_cons_same, hlater]
      rfl
    . have hlater := ih (before ++ [(j, entry)])
      rw [entriesOf_append, entriesOf_cons_other hj, List.length_append] at hlater
      rw [entriesOf_cons_other hj, entriesOf_cons_other hj, hlater]
      rfl

theorem mem_placesFrom {before log : List (κ × ε)} {k : κ} {n : Nat} (h : (k, n) ∈ placesFrom before log)
    : ∃ first entry later, log = first ++ (k, entry) :: later ∧
        (entriesOf k (before ++ first)).length = n := by
  induction log generalizing before with
  | nil => contradiction
  | cons entry log ih =>
    unfold placesFrom at h
    obtain heq | hlater := List.mem_cons.mp h
    . injection heq with hk hn
      refine ⟨[], entry.2, log, ?_, ?_⟩
      . rw [hk]
        rfl
      . rw [hk, hn, List.append_nil]
    . obtain ⟨first, entry', later, hlog, hn⟩ := ih hlater
      refine ⟨entry :: first, entry', later, ?_, ?_⟩
      . rw [hlog, List.cons_append]
      . rwa [List.append_assoc] at hn

theorem entriesOf_places (k : κ) (log : List (κ × ε))
    : entriesOf k (places log) = List.range (entriesOf k log).length := by
  unfold places
  rw [entriesOf_placesFrom, List.range_eq_range']
  rfl

section

variable {κ γ ρ σ : Type}

-- The calls that stand at these places.
def callsAt (made : κ → List (γ × Option ρ)) (order : List (κ × Nat)) : List γ :=
  order.filterMap fun (k, n) => (made k)[n]?.map Prod.fst

theorem callsAt_append (made : κ → List (γ × Option ρ)) (order order' : List (κ × Nat))
    : callsAt made (order ++ order') = callsAt made order ++ callsAt made order' := by
  apply List.filterMap_append

variable [DecidableEq κ]

/--
An order in which the calls of several callers have been executed. Each caller has made its calls one after
the other and got an answer to some of them.
-/
structure Serializes (exec : γ → σ → σ × List ρ) (made : κ → List (γ × Option ρ))
    (order : List (κ × Nat)) (first last : σ) : Prop where
  -- the calls of a caller are executed in their order, up to one of them
  turns : ∀ k, entriesOf k order = List.range (entriesOf k order).length
  known : ∀ place ∈ order, place.2 < (made place.1).length
  -- nothing else is done
  effect : (transduce exec (callsAt made order) first).1 = last
  -- a call that is answered has been executed, with this answer in its place
  answered : ∀ {k n call answer}, (made k)[n]? = some (call, some answer) →
    ∃ before after, order = before ++ (k, n) :: after ∧
      (exec call (transduce exec (callsAt made before) first).1).2 = [answer]

variable {exec : γ → σ → σ × List ρ} {made : κ → List (γ × Option ρ)} {order : List (κ × Nat)}
variable {first last : σ}

theorem nodup_of_turns (h : ∀ k, entriesOf k order = List.range (entriesOf k order).length)
    : order.Nodup := by
  rw [List.nodup_iff_count]
  intro ⟨k, n⟩
  have hcount : order.count (k, n) = (entriesOf k order).count n := by
    unfold entriesOf
    rw [List.count_filterMap, List.count]
    apply List.countP_congr
    intro ⟨j, m⟩ _
    by_cases hj : j = k
    . simp [hj]
    . simp [hj]
  rw [hcount, h k]
  exact List.nodup_iff_count.mp List.nodup_range n

-- No call is executed twice.
theorem Serializes.once (h : Serializes exec made order first last)
    : order.Nodup := by
  exact nodup_of_turns h.turns

-- A log of which each entry is what executing the next call of its caller comes to: `value` is what has
-- become of the state behind a part of it.
theorem serializes_places {log : List (κ × ε)} {value : List (κ × ε) → σ}
    (hserved : ∀ {before k entry after}, log = before ++ (k, entry) :: after →
      ∃ call answer, (made k)[(entriesOf k before).length]? = some (call, answer) ∧
        value (before ++ [(k, entry)]) = (exec call (value before)).1)
    (hanswered : ∀ {k n call answer}, (made k)[n]? = some (call, some answer) →
      ∃ before entry after, log = before ++ (k, entry) :: after ∧ (entriesOf k before).length = n ∧
        (exec call (value before)).2 = [answer])
    : Serializes exec made (places log) (value []) (value log) := by
  have hvalue : ∀ {before}, before <+: log →
      value before = (transduce exec (callsAt made (places before)) (value [])).1 := by
    intro before hprefix
    induction before using List.reverseRecOn with
    | nil => rfl
    | append_singleton before entry ih =>
      obtain ⟨k, entry⟩ := entry
      obtain ⟨after, hlog⟩ := hprefix
      rw [List.append_assoc, List.singleton_append] at hlog
      obtain ⟨call, answer, hcall, hstep⟩ := hserved hlog.symm
      have hat : callsAt made (placesFrom before [(k, entry)]) = [call] := by
        unfold placesFrom placesFrom callsAt
        simp [hcall]
      rw [places_append, callsAt_append, hat, transduce_append, transduce_singleton, hstep]
      rw [ih ⟨_, hlog⟩]
  constructor
  . intro k
    rw [entriesOf_places, List.length_range]
  . intro ⟨k, n⟩ hplace
    obtain ⟨before, entry, after, hlog, hn⟩ := mem_placesFrom hplace
    obtain ⟨call, answer, hcall, -⟩ := hserved hlog
    rw [List.nil_append] at hn
    rw [hn] at hcall
    exact (List.getElem?_eq_some_iff.mp hcall).1
  . rw [← hvalue (List.prefix_refl log)]
  . intro k n call answer hcall
    obtain ⟨before, entry, after, hlog, hn, hanswer⟩ := hanswered hcall
    refine ⟨places before, placesFrom (before ++ [(k, entry)]) after, ?_, ?_⟩
    . rw [hlog, places_append, ← hn]
      rfl
    . rw [← hvalue ⟨_, hlog.symm⟩]
      exact hanswer

end

end Modbus
