import ModbusProtocol.Posix.Timing

/-!
This module contains sockets on which everything that is still to come arrives before some point in time,
and on which no receive is given up before.
-/

namespace Posix

namespace Line

instance (l : Line) (limit : Nat) : Decidable (InTime l limit) :=
  decidable_of_iff
    ((∀ turn ∈ l.turns, turn.outcome = .done ∨ turn.outcome = .intr) ∧ l.now + l.delay < limit ∧
      ∀ arrival ∈ l.incoming, arrival.time + l.delay < limit)
    ⟨fun ⟨turns, now, arrivals⟩ => ⟨turns, now, arrivals⟩, fun h => ⟨h.turns, h.now, h.arrivals⟩⟩

structure Awaited (l : Line) (start limit : Nat) : Prop extends InTime l limit where
  started : start ≤ l.now
  recvTimeout : ∀ timeout, l.recvTimeout = some timeout → limit ≤ start + timeout

theorem Awaited.turn {l : Line} {start limit : Nat} (h : Awaited l start limit)
    : Awaited l.turn.2 start limit := by
  constructor
  . apply h.toInTime.turn
  . have hdelay := turn_delay l
    have hstarted := h.started
    omega
  . rw [(turn_took l).recvTimeout]
    apply h.recvTimeout

theorem Awaited.wake {l : Line} {start limit : Nat} {next : Arrival} {later : List Arrival}
    (h : Awaited l start limit) (hnext : l.incoming = next :: later)
    : Awaited (l.wake next.time) start limit := by
  constructor
  . apply h.toInTime.wake hnext
  . apply Nat.le_trans h.started
    apply Nat.le_max_left
  . apply h.recvTimeout

theorem Awaited.deliver {l : Line} {start limit : Nat} (h : Awaited l start limit) (k : Nat)
    : Awaited (l.deliver k).2 start limit := by
  constructor
  . apply h.toInTime.deliver
  . apply h.started
  . apply h.recvTimeout

theorem Awaited.recv {l : Line} {start limit : Nat} (h : Awaited l start limit) (n : Nat)
    (hincoming : l.incoming ≠ [])
    : Awaited (l.recv n).2 start limit ∧
      ((l.recv n).1 = .intr ∨ ∃ chunk, (l.recv n).1 = .bytes chunk) := by
  have hturn := h.turn
  have heq := (turn_took l).incoming
  rw [List.length_nil, List.drop_zero] at heq
  unfold Line.recv
  dsimp only
  cases h.turn_outcome with
  | inr hintr =>
    rw [hintr]
    exact ⟨hturn, .inl rfl⟩
  | inl hdone =>
    rw [hdone]
    cases hnext : l.turn.2.incoming with
    | nil =>
      rw [← heq, hnext] at hincoming
      contradiction
    | cons next later =>
      have hfirst := hturn.arrivals next (by simp [hnext])
      have hpatient : ¬(l.turn.2.recvTimeout.any
          fun timeout => l.turn.2.now + timeout < next.time) = true := by
        rw [Option.any_eq_true]
        rintro ⟨timeout, htimeout, hlate⟩
        have hle := hturn.recvTimeout timeout htimeout
        have hstarted := hturn.started
        have hlt := of_decide_eq_true hlate
        omega
      dsimp only
      rw [if_neg hpatient]
      exact ⟨(hturn.wake hnext).deliver _, .inr ⟨_, rfl⟩⟩

theorem Awaited.recvLoop {l : Line} {start limit : Nat} (h : Awaited l start limit) (len fuel : Nat)
    (hfuel : l.effort < fuel) (hlen : len ≤ l.bytes.length)
    : (l.recvLoop len fuel).1 = .ok ∧ Awaited (l.recvLoop len fuel).2.2 start limit := by
  induction fuel generalizing l len with
  | zero => omega
  | succ fuel ih =>
    unfold Line.recvLoop
    split
    . exact ⟨rfl, h⟩
    . next hzero =>
      have hincoming : l.incoming ≠ [] := by
        intro hnil
        rw [Line.bytes, hnil] at hlen
        exact hzero (Nat.le_zero.mp hlen)
      have hrecv := recv_receives l len (by omega)
      have htime := h.recv len hincoming
      generalize l.recv len = result at hrecv htime
      obtain ⟨ret, l'⟩ := result
      dsimp only at hrecv htime
      obtain ⟨hnext, rfl | ⟨chunk, rfl⟩⟩ := htime
      . have htook := hrecv.other (by simp)
        have hturns := hrecv.intr rfl
        have hbytes := htook.bytes
        have hrest := congrArg List.length htook.incoming
        rw [List.nil_append] at hbytes
        rw [hbytes] at hlen
        apply ih hnext
        . unfold effort at hfuel ⊢
          simp at hrest
          omega
        . exact hlen
      . obtain ⟨htook, hle, hne⟩ := hrecv.bytes
        have hpos := List.length_pos_iff.mpr hne
        have hless := htook.effort
        have hsplit := congrArg List.length htook.bytes
        rw [List.length_append] at hsplit
        apply ih hnext
        . omega
        . omega

-- What there is of the bytes asked for decides.
theorem Awaited.recvAll {l : Line} {start limit : Nat} (h : Awaited l start limit) {len : Nat}
    (hlen : len ≤ l.bytes.length)
    : (l.recvAll len).1 = .ok ∧ Awaited (l.recvAll len).2.2 start limit := by
  apply h.recvLoop _ _ _ hlen
  omega

-- A wait up to `limit` or beyond ends with something to be read, or is interrupted.
theorem Awaited.poll {l : Line} {start limit : Nat} {timeout : Option Nat} (h : Awaited l start limit)
    (hlimit : ∀ us, timeout = some us → limit ≤ l.now + us) (hincoming : l.incoming ≠ [])
    : Awaited (l.poll timeout).2 start limit ∧
      ((l.poll timeout).1 = .ready ∨ (l.poll timeout).1 = .intr) := by
  have hturn := h.turn
  have heq := (turn_took l).incoming
  rw [List.length_nil, List.drop_zero] at heq
  have hwake : ∀ {next later}, l.turn.2.incoming = next :: later →
      Awaited (l.turn.2.wake next.time) start limit := fun hnext => hturn.wake hnext
  unfold Line.poll
  cases timeout with
  | some us =>
    have hnow := (turn_delay l).1
    have hle := hlimit us rfl
    have hturned := (turn_delay l).2
    unfold Line.select
    dsimp only
    cases h.turn_outcome with
    | inr hintr =>
      rw [hintr]
      exact ⟨hturn, .inr rfl⟩
    | inl hdone =>
      rw [hdone]
      cases hnext : l.turn.2.incoming with
      | nil =>
        rw [← heq, hnext] at hincoming
        contradiction
      | cons next later =>
        have hfirst := hturn.arrivals next (by simp [hnext])
        dsimp only
        rw [if_pos (by omega)]
        exact ⟨hwake hnext, .inl rfl⟩
  | none =>
    dsimp only
    cases h.turn_outcome with
    | inr hintr =>
      rw [hintr]
      exact ⟨hturn, .inr rfl⟩
    | inl hdone =>
      rw [hdone]
      cases hnext : l.turn.2.incoming with
      | nil =>
        rw [← heq, hnext] at hincoming
        contradiction
      | cons next later => exact ⟨hwake hnext, .inl rfl⟩

theorem Awaited.write {l : Line} {start limit : Nat} (h : Awaited l start limit) (buf : List UInt8)
    : Awaited (l.write buf).2 start limit ∧
      ((l.write buf).1 = .intr ∨ ∃ chunk, (l.write buf).1 = .bytes chunk) := by
  have hturn := h.turn
  unfold Line.write
  dsimp only
  cases h.turn_outcome with
  | inr hintr =>
    rw [hintr]
    exact ⟨hturn, .inl rfl⟩
  | inl hdone =>
    rw [hdone]
    refine ⟨?_, .inr ⟨_, rfl⟩⟩
    constructor
    . constructor
      . apply hturn.turns
      . apply hturn.now
      . apply hturn.arrivals
    . apply hturn.started
    . apply hturn.recvTimeout

theorem Awaited.writeLoop {l : Line} {start limit : Nat} (h : Awaited l start limit) (retry : Bool)
    (buf : List UInt8) (fuel : Nat) (hfuel : l.turns.length + buf.length < fuel)
    : (l.writeLoop retry buf fuel).1 = true ∧ Awaited (l.writeLoop retry buf fuel).2 start limit := by
  induction fuel generalizing l buf with
  | zero => omega
  | succ fuel ih =>
    unfold Line.writeLoop
    split
    . exact ⟨rfl, h⟩
    . next hnil =>
      obtain ⟨sent, hput, hsent⟩ := write_put l buf hnil
      have htime := h.write buf
      generalize l.write buf = result at hput hsent htime
      obtain ⟨ret, l'⟩ := result
      dsimp only at hput hsent htime
      obtain ⟨hnext, rfl | ⟨chunk, rfl⟩⟩ := htime
      . obtain ⟨hchunk, -⟩ | ⟨-, hlt, -⟩ := hsent
        . contradiction
        . apply ih hnext
          omega
      . obtain ⟨hchunk, hne, suffix, hsuffix⟩ | ⟨-, -, hret⟩ := hsent
        . injection hchunk with hchunk
          subst hchunk
          have hpos := List.length_pos_iff.mpr hne
          have hturns := hput.turns.length_le
          have hbuf := congrArg List.length hsuffix
          rw [List.length_append] at hbuf
          apply ih hnext
          rw [List.length_drop]
          omega
        . exact absurd rfl (hret chunk)

theorem Awaited.writeAll {l : Line} {start limit : Nat} (h : Awaited l start limit) (retry : Bool)
    (buf : List UInt8)
    : (l.writeAll retry buf).1 = true ∧ Awaited (l.writeAll retry buf).2 start limit := by
  apply h.writeLoop
  omega

end Line

end Posix
