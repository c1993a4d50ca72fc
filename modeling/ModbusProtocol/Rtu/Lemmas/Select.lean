import ModbusProtocol.Rtu.Impl.Select

/-!
This module contains when the RTU client and server put their port into a set, and that keeping the record of
it changes nothing else.
-/

open Modbus Posix

namespace Rtu

namespace Client.WithSets

theorem waitLoop_erase (fd : Int) (deadlineUs fuel : Nat) (line : Line)
    : (waitLoop fd deadlineUs fuel line).result = Client.waitLoop deadlineUs fuel line := by
  induction fuel generalizing line with
  | zero => rfl
  | succ fuel ih =>
    unfold waitLoop Client.waitLoop
    dsimp only
    split
    . rfl
    . generalize Line.select _ _ = selected
      obtain ⟨status, line'⟩ := selected
      cases status with
      | ready => rfl
      | timeout => rfl
      | intr => apply ih
      | error => rfl

theorem readLoop_erase (fd : Int) (deadlineUs fuel : Nat) (line : Line) (len : Nat)
    : (readLoop fd deadlineUs fuel line len).result = Client.readLoop deadlineUs fuel line len := by
  induction fuel generalizing line len with
  | zero => rfl
  | succ fuel ih =>
    have hready : (waitReadable fd line deadlineUs).result = Client.waitReadable line deadlineUs := by
      apply waitLoop_erase
    unfold readLoop Client.readLoop
    dsimp only
    split
    . rfl
    . rw [← hready]
      split
      . rfl
      . generalize Line.read _ _ = returned
        obtain ⟨ret, line'⟩ := returned
        cases ret with
        | bytes chunk =>
          dsimp only
          rw [← ih]
        | intr => apply ih
        | hangup => rfl
        | again => rfl
        | error => rfl

theorem readExactTimeout_erase (fd : Int) (line : Line) (len deadlineUs : Nat)
    : (readExactTimeout fd line len deadlineUs).result
        =
      Client.readExactTimeout line len deadlineUs := by
  apply readLoop_erase

theorem waitLoop_only (fd : Int) (deadlineUs fuel : Nat) (line : Line)
    : Only fd (waitLoop fd deadlineUs fuel line) := by
  induction fuel generalizing line with
  | zero => apply Only.none
  | succ fuel ih =>
    unfold waitLoop
    dsimp only
    split
    . apply Only.none
    . split
      . apply Only.single
      . apply Only.single
      . apply Only.after
        apply ih
      . apply Only.single

-- Whatever comes later, the first round decides whether there is a set at all.
theorem waitLoop_nil_iff (fd : Int) (deadlineUs fuel : Nat) (line : Line)
    : (waitLoop fd deadlineUs (fuel + 1) line).sets = [] ↔ deadlineUs ≤ (monotonicUs line).1 := by
  unfold waitLoop
  dsimp only
  split
  . next hlate => simp [hlate]
  . next hearly =>
    constructor
    . intro hnil
      split at hnil
      all_goals contradiction
    . intro hlate
      exact absurd hlate hearly

theorem waitLoop_late {fd : Int} {deadlineUs : Nat} {line : Line}
    (h : deadlineUs ≤ (monotonicUs line).1) (fuel : Nat)
    : (waitLoop fd deadlineUs (fuel + 1) line).result.1 = -2 := by
  unfold waitLoop
  dsimp only
  rw [if_pos h]

theorem readLoop_only (fd : Int) (deadlineUs fuel : Nat) (line : Line) (len : Nat)
    : Only fd (readLoop fd deadlineUs fuel line len) := by
  induction fuel generalizing line len with
  | zero => apply Only.none
  | succ fuel ih =>
    have hready : Only fd (waitReadable fd line deadlineUs) := by
      apply waitLoop_only
    unfold readLoop
    dsimp only
    split
    . apply Only.none
    . split
      . exact hready
      . split
        . exact hready.append (ih _ _) rfl
        . exact hready.append (ih _ _) rfl
        . exact hready
        . exact hready
        . exact hready

theorem readLoop_nil_iff (fd : Int) (deadlineUs fuel : Nat) (line : Line) (len : Nat)
    : (readLoop fd deadlineUs (fuel + 1) line len).sets = []
        ↔ len = 0 ∨ deadlineUs ≤ (monotonicUs line).1 := by
  have hready := waitLoop_nil_iff fd deadlineUs line.turns.length line
  unfold readLoop
  dsimp only
  unfold waitReadable
  rw [← hready]
  split
  . next hzero => simp [hzero]
  . next hlen =>
    split
    . simp [hlen]
    . next hok =>
      have hset : ¬(waitLoop fd deadlineUs (line.turns.length + 1) line).sets = [] := by
        intro hnil
        rw [waitLoop_late (hready.mp hnil)] at hok
        contradiction
      split
      . simp [hlen, hset]
      . simp [hlen, hset, Selected.after]
      . simp [hlen, hset]
      . simp [hlen, hset]
      . simp [hlen, hset]

theorem readLoop_late {fd : Int} {deadlineUs : Nat} {line : Line} {len : Nat}
    (h : deadlineUs ≤ (monotonicUs line).1) (fuel : Nat)
    : (readLoop fd deadlineUs (fuel + 1) line len).result.1 = if len = 0 then 0 else -2 := by
  have hlate := @waitLoop_late fd _ _ h line.turns.length
  unfold readLoop
  split
  . rfl
  . dsimp only
    unfold waitReadable
    rw [hlate]
    rfl

theorem readExactTimeout_guards_iff (fd : Int) (line : Line) (len deadlineUs : Nat)
    : Guards fd (readExactTimeout fd line len deadlineUs).sets
        ((readExactTimeout fd line len deadlineUs).result.1 < 0)
        ↔ fd < fdSetSize ∨ (len ≠ 0 ∧ deadlineUs ≤ (monotonicUs line).1) := by
  have honly : Only fd (readExactTimeout fd line len deadlineUs) := by
    apply readLoop_only
  rw [honly.guards_iff]
  unfold readExactTimeout
  rw [readLoop_nil_iff]
  by_cases hlen : len = 0
  . have hok : (readLoop fd deadlineUs (line.effort + 1) line len).result.1 = 0 := by
      unfold readLoop
      rw [if_pos hlen]
    rw [hok]
    simp [hlen]
  . constructor
    . intro hor
      exact hor.imp_right fun h => ⟨hlen, h.1.resolve_left hlen⟩
    . intro hor
      apply hor.imp_right
      rintro ⟨-, hlate⟩
      rw [readLoop_late hlate, if_neg hlen]
      exact ⟨.inr hlate, by decide⟩

end Client.WithSets

namespace WithSets

theorem writeLoop_erase (fd : Int) (line : Line) (buf : List UInt8) (fuel : Nat)
    : (writeLoop fd line buf fuel).result = line.writeLoop true buf fuel := by
  induction fuel generalizing line buf with
  | zero => rfl
  | succ fuel ih =>
    unfold writeLoop Line.writeLoop
    split
    . rfl
    . generalize line.write buf = returned
      obtain ⟨ret, line'⟩ := returned
      cases ret with
      | bytes chunk => apply ih
      | intr => apply ih
      | again => apply ih
      | hangup => rfl
      | error => rfl

theorem writeAll_erase (fd : Int) (line : Line) (buf : List UInt8)
    : (writeAll fd line buf).result = Rtu.writeAll line buf := by
  have hloop := writeLoop_erase fd line buf (line.turns.length + buf.length + 1)
  unfold writeAll Rtu.writeAll Line.writeAll
  rw [← hloop]
  generalize writeLoop fd line buf _ = written
  obtain ⟨sets, ok, line'⟩ := written
  cases ok with
  | false => rfl
  | true => rfl

theorem writeLoop_only (fd : Int) (line : Line) (buf : List UInt8) (fuel : Nat)
    : Only fd (writeLoop fd line buf fuel) := by
  induction fuel generalizing line buf with
  | zero => apply Only.none
  | succ fuel ih =>
    unfold writeLoop
    split
    . apply Only.none
    . split
      . apply ih
      . apply ih
      . apply Only.after
        apply ih
      . apply Only.none
      . apply Only.none

theorem writeLoop_fails_iff (fd : Int) (line : Line) (buf : List UInt8) (fuel : Nat)
    (h : line.turns.length + buf.length < fuel)
    : (writeLoop fd line buf fuel).sets = [] ∧
        ((writeLoop fd line buf fuel).result.1 = false ∨
          (writeLoop fd line buf fuel).result.2.drain.1 = false)
        ↔ Fails line.turns buf.length := by
  induction fuel generalizing line buf with
  | zero => contradiction
  | succ fuel ih =>
    unfold writeLoop
    split
    . next hnil =>
      rw [hnil, List.length_nil, fails_zero]
      simp
    . next hbuf =>
      have hpos : buf.length ≠ 0 := by
        intro hzero
        exact hbuf (List.eq_nil_of_length_eq_zero hzero)
      unfold Line.write Line.turn
      cases hturns : line.turns with
      | nil =>
        have hlen : (buf.drop (buf.take (0 + 1)).length).length < buf.length := by
          simp
          omega
        have hnot : ∀ len, ¬Fails [] len := fun len => not_false
        dsimp only
        rw [ih]
        . dsimp only
          rw [hturns]
          exact iff_of_false (hnot _) (hnot _)
        . rw [hturns] at h ⊢
          dsimp only [List.length_nil] at h ⊢
          omega
      | cons turn turns =>
        rw [hturns, List.length_cons] at h
        unfold Fails
        rw [if_neg hpos]
        dsimp only [Line.pass]
        cases turn.outcome with
        | done =>
          have hrest : (buf.drop (buf.take (turn.limit + 1)).length).length
              = buf.length - (turn.limit + 1) := by
            simp
            omega
          dsimp only
          rw [ih _ _ (by dsimp only; omega), hrest]
        | hangup => simp
        | intr =>
          dsimp only
          rw [ih _ _ (by dsimp only; omega)]
        | again => simp [Selected.after]
        | error => simp

theorem writeAll_guards_iff (fd : Int) (line : Line) (buf : List UInt8)
    : Guards fd (writeAll fd line buf).sets ((writeAll fd line buf).result.1 = false)
        ↔ fd < fdSetSize ∨ Fails line.turns buf.length := by
  have honly := writeLoop_only fd line buf (line.turns.length + buf.length + 1)
  have hfails := writeLoop_fails_iff fd line buf (line.turns.length + buf.length + 1) (by omega)
  rw [← hfails, ← honly.guards_iff]
  unfold writeAll
  generalize writeLoop fd line buf _ = written
  obtain ⟨sets, ok, line'⟩ := written
  cases ok with
  | false => simp
  | true => simp

theorem echoLoop_erase (fd : Int) (deadlineUs len fuel : Nat) (line : Line) (got : Nat)
    : (echoLoop fd deadlineUs len fuel line got).result = Rtu.echoLoop deadlineUs len fuel line got := by
  induction fuel generalizing line got with
  | zero => rfl
  | succ fuel ih =>
    unfold echoLoop Rtu.echoLoop
    dsimp only
    split
    . split
      . rfl
      . generalize Line.select _ _ = selected
        obtain ⟨status, line'⟩ := selected
        cases status with
        | ready =>
          dsimp only
          generalize line'.read _ = returned
          obtain ⟨ret, line''⟩ := returned
          cases ret with
          | bytes chunk => apply ih
          | intr => apply ih
          | again => apply ih
          | hangup => rfl
          | error => rfl
        | timeout => apply ih
        | intr => apply ih
        | error => apply ih
    . rfl

theorem discardEcho_erase {σ : Type} (cfg : ServerConfig σ) (fd : Int) (line : Line) (len : Nat)
    : (discardEcho cfg fd line len).result = Rtu.discardEcho cfg line len := by
  apply echoLoop_erase

theorem echoLoop_only (fd : Int) (deadlineUs len fuel : Nat) (line : Line) (got : Nat)
    : Only fd (echoLoop fd deadlineUs len fuel line got) := by
  induction fuel generalizing line got with
  | zero => apply Only.none
  | succ fuel ih =>
    unfold echoLoop
    dsimp only
    split
    . split
      . apply Only.none
      . split
        . split
          . apply Only.after
            apply ih
          . apply Only.single
          . apply Only.after
            apply ih
          . apply Only.after
            apply ih
          . apply Only.single
        . apply Only.after
          apply ih
    . apply Only.none

-- `discard_echo` reports no error.
theorem discardEcho_guards_iff {σ : Type} (cfg : ServerConfig σ) (fd : Int) (line : Line) (len : Nat)
    : Guards fd (discardEcho cfg fd line len).sets False ↔ fd < fdSetSize := by
  have honly : Only fd (discardEcho cfg fd line len) := by
    apply echoLoop_only
  rw [honly.guards_iff, and_false, or_false]

end WithSets

end Rtu
