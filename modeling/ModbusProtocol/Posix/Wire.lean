import Mathlib.Data.List.TakeWhile
import ModbusProtocol.Posix.Lemmas

/-!
This module contains how two lines are put together: what has been written at one end is what is still to
come at the other.
-/

namespace Posix

namespace Line

-- The i-th of these bytes can be read at `times i`, behind whatever is on its way already.
def feed (l : Line) (times : Nat → Nat) (bytes : List UInt8) : Line :=
  { l with incoming := l.incoming ++ bytes.mapIdx fun i byte => ⟨times i, byte⟩ }

-- What has been written between two states of a line.
def written (before after : Line) : List UInt8 :=
  after.outgoing.drop before.outgoing.length

theorem feed_bytes (l : Line) (times : Nat → Nat) (bytes : List UInt8)
    : (l.feed times bytes).bytes = l.bytes ++ bytes := by
  unfold feed Line.bytes
  rw [List.map_append]
  congr 1
  apply List.ext_getElem
  . simp
  . simp

theorem Took.written {l l' : Line} {chunk : List UInt8} (h : Took l chunk l')
    : l.written l' = [] := by
  unfold Line.written
  rw [h.outgoing, List.drop_length]

theorem Took.written_put {l l' l'' : Line} {sent chunk : List UInt8} (h : Took l chunk l')
    (h' : Put l' sent l'')
    : l.written l'' = sent := by
  unfold Line.written
  rw [h'.outgoing, h.outgoing, List.drop_left]

theorem turn_feed (l : Line) (times : Nat → Nat) (bytes : List UInt8)
    : (l.feed times bytes).turn = (l.turn.1, l.turn.2.feed times bytes) := by
  unfold turn
  have hturns : (l.feed times bytes).turns = l.turns := by rfl
  rw [hturns]
  cases l.turns with
  | nil => rfl
  | cons turn turns => rfl

theorem clock_feed (l : Line) (times : Nat → Nat) (bytes : List UInt8)
    : (l.feed times bytes).clock = (l.clock.1, l.clock.2.feed times bytes) := by
  unfold clock
  rw [turn_feed]
  rfl

theorem sleep_feed (l : Line) (us : Nat) (times : Nat → Nat) (bytes : List UInt8)
    : (l.feed times bytes).sleep us = (l.sleep us).feed times bytes := by
  unfold sleep
  rw [turn_feed]
  rfl

theorem drain_feed (l : Line) (times : Nat → Nat) (bytes : List UInt8)
    : (l.feed times bytes).drain = (l.drain.1, l.drain.2.feed times bytes) := by
  unfold drain
  rw [turn_feed]

theorem write_feed (l : Line) (buf : List UInt8) (times : Nat → Nat) (bytes : List UInt8)
    : (l.feed times bytes).write buf = ((l.write buf).1, (l.write buf).2.feed times bytes) := by
  unfold write
  rw [turn_feed]
  dsimp only
  cases l.turn.1.outcome with
  | done => rfl
  | _ => rfl

theorem writeLoop_feed (retry : Bool) (l : Line) (buf : List UInt8) (fuel : Nat) (times : Nat → Nat)
    (bytes : List UInt8)
    : (l.feed times bytes).writeLoop retry buf fuel
        = ((l.writeLoop retry buf fuel).1, (l.writeLoop retry buf fuel).2.feed times bytes) := by
  induction fuel generalizing l buf with
  | zero => rfl
  | succ fuel ih =>
    unfold writeLoop
    split
    . rfl
    . rw [write_feed]
      generalize l.write buf = result
      obtain ⟨ret, l'⟩ := result
      cases ret with
      | bytes chunk => apply ih
      | intr => apply ih
      | again =>
        dsimp only
        split
        . rw [turn_feed]
          apply ih
        . rfl
      | hangup => rfl
      | error => rfl

-- What comes in does not matter to what is written.
theorem writeAll_feed (retry : Bool) (l : Line) (buf : List UInt8) (times : Nat → Nat) (bytes : List UInt8)
    : (l.feed times bytes).writeAll retry buf
        = ((l.writeAll retry buf).1, (l.writeAll retry buf).2.feed times bytes) := by
  apply writeLoop_feed

-- A flush drops what has come before and keeps what is still to come.
theorem flush_feed {l : Line} {times : Nat → Nat} {bytes : List UInt8}
    (hstale : ∀ arrival ∈ l.incoming, arrival.time ≤ l.turn.2.now)
    (hfresh : ∀ i < bytes.length, l.turn.2.now < times i)
    : (l.feed times bytes).flush = l.flush.feed times bytes ∧ l.flush.incoming = [] := by
  have hincoming := (turn_took l).incoming
  rw [List.length_nil, List.drop_zero] at hincoming
  have hstill : ∀ arrival ∈ bytes.mapIdx fun i byte => (⟨times i, byte⟩ : Arrival),
      ¬arrival.time ≤ l.turn.2.now := by
    intro arrival hmem
    obtain ⟨i, hi, rfl⟩ := List.mem_mapIdx.mp hmem
    exact Nat.not_le.mpr (hfresh i hi)
  have hold : ∀ arrival ∈ l.incoming, decide (arrival.time ≤ l.turn.2.now) = true := by
    intro arrival hmem
    exact decide_eq_true (hstale arrival hmem)
  have hnew : (bytes.mapIdx fun i byte => (⟨times i, byte⟩ : Arrival)).takeWhile
      (·.time ≤ l.turn.2.now) = [] := by
    rw [List.takeWhile_eq_nil_iff]
    intro hpos
    have := hstill _ (List.getElem_mem hpos)
    simpa using this
  unfold flush
  rw [turn_feed]
  unfold feed arrived
  dsimp only
  rw [hincoming, List.takeWhile_append_of_pos hold, List.takeWhile_eq_self_iff.mpr hold, hnew]
  rw [List.append_nil, List.drop_left, List.drop_length, List.nil_append]
  exact ⟨rfl, rfl⟩

end Line

end Posix
