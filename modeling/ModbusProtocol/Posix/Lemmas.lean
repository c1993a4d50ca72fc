import ModbusProtocol.Posix.Line

/-!
This module contains what a system call can do to a line: what a receive takes from the incoming bytes,
what a write adds to the outgoing ones, and that everything else stays. The loops are total, their fuel
is never used up.
-/

namespace Posix

namespace Line

-- `l'` is what is left of `l` once `chunk` has been taken from its incoming bytes.
structure Took (l : Line) (chunk : List UInt8) (l' : Line) : Prop where
  incoming : l'.incoming = l.incoming.drop chunk.length
  bytes : l.bytes = chunk ++ l'.bytes
  outgoing : l'.outgoing = l.outgoing
  turns : l'.turns <:+ l.turns
  recvTimeout : l'.recvTimeout = l.recvTimeout

theorem Took.refl (l : Line)
    : Took l [] l := by
  constructor
  all_goals simp

theorem Took.trans {l l' l'' : Line} {chunk chunk' : List UInt8} (h : Took l chunk l')
    (h' : Took l' chunk' l'')
    : Took l (chunk ++ chunk') l'' := by
  constructor
  . rw [h'.incoming, h.incoming, List.drop_drop, List.length_append]
  . rw [h.bytes, h'.bytes, List.append_assoc]
  . rw [h'.outgoing, h.outgoing]
  . exact h'.turns.trans h.turns
  . rw [h'.recvTimeout, h.recvTimeout]

theorem Took.rest {l l' : Line} {chunk : List UInt8} (h : Took l chunk l')
    : l'.bytes <:+ l.bytes := by
  exact ⟨chunk, h.bytes.symm⟩

theorem Took.drop {l l' : Line} {chunk : List UInt8} (h : Took l chunk l')
    : l'.bytes <:+ l.bytes.drop chunk.length := by
  have hdrop : l.bytes.drop chunk.length = l'.bytes := by
    rw [h.bytes, List.drop_left]
  exact ⟨[], hdrop.symm⟩

theorem Took.effort {l l' : Line} {chunk : List UInt8} (h : Took l chunk l')
    : l'.effort + chunk.length ≤ l.effort := by
  have hlen := congrArg List.length h.bytes
  have hturns := h.turns.length_le
  simp only [Line.bytes, List.length_map, List.length_append] at hlen
  unfold Line.effort
  omega

theorem turn_took (l : Line)
    : Took l [] l.turn.2 := by
  unfold turn
  split
  . exact Took.refl l
  . next hturns =>
    constructor
    all_goals simp [Line.bytes, hturns, pass]

theorem turn_length {l : Line} (h : l.turn.1.outcome ≠ .done)
    : l.turn.2.turns.length < l.turns.length := by
  unfold turn at h ⊢
  split
  . next hturns => simp [hturns] at h
  . next hturns => simp [hturns, pass]

theorem pass_took (l : Line) (us : Nat)
    : Took l [] (l.pass us) := by
  constructor
  all_goals simp [Line.bytes, pass]

theorem wake_took (l : Line) (time : Nat)
    : Took l [] (l.wake time) := by
  constructor
  all_goals simp [Line.bytes, wake]

theorem select_took (l : Line) (timeout : Nat)
    : Took l [] (l.select timeout).2 := by
  have htook := turn_took l
  unfold select
  dsimp only
  cases l.turn.1.outcome with
  | done =>
    dsimp only
    split
    . exact htook.trans (pass_took _ _)
    . split
      . exact htook.trans (wake_took _ _)
      . exact htook.trans (pass_took _ _)
  | hangup => exact htook
  | intr => exact htook
  | again => exact htook
  | error => exact htook

theorem poll_took (l : Line) (timeout : Option Nat)
    : Took l [] (l.poll timeout).2 := by
  have htook := turn_took l
  unfold poll
  cases timeout with
  | some timeout => apply select_took
  | none =>
    dsimp only
    cases l.turn.1.outcome with
    | done =>
      dsimp only
      split
      . exact htook.trans (pass_took _ _)
      . exact htook.trans (wake_took _ _)
    | _ => exact htook

theorem select_turns {l : Line} {timeout : Nat} (h : (l.select timeout).1 = .intr)
    : (l.select timeout).2.turns.length < l.turns.length := by
  unfold select at h ⊢
  dsimp only at h ⊢
  have hturns := turn_length (l := l)
  generalize l.turn = result at h hturns
  obtain ⟨turn, l'⟩ := result
  cases hout : turn.outcome with
  | intr =>
    apply hturns
    simp [hout]
  | done => grind
  | _ => simp [hout] at h

theorem poll_turns {l : Line} {timeout : Option Nat} (h : (l.poll timeout).1 = .intr)
    : (l.poll timeout).2.turns.length < l.turns.length := by
  cases timeout with
  | some timeout => apply select_turns h
  | none =>
    unfold poll at h ⊢
    dsimp only at h ⊢
    have hturns := turn_length (l := l)
    generalize l.turn = result at h hturns
    obtain ⟨turn, l'⟩ := result
    cases hout : turn.outcome with
    | intr =>
      apply hturns
      simp [hout]
    | done => grind
    | _ => simp [hout] at h

theorem arrived_le (l : Line)
    : l.arrived ≤ l.incoming.length := by
  exact (List.takeWhile_sublist _).length_le

theorem deliver_took {l l' : Line} {k : Nat} {chunk : List UInt8} (hk : k ≤ l.incoming.length)
    (h : l.deliver k = (.bytes chunk, l'))
    : Took l chunk l' ∧ chunk.length = k := by
  unfold deliver at h
  injection h with hchunk hl
  injection hchunk with hchunk
  subst hchunk hl
  have hlen : ((l.incoming.take k).map Arrival.byte).length = k := by
    rw [List.length_map, List.length_take]
    omega
  refine ⟨?_, hlen⟩
  constructor
  . rw [hlen]
  . unfold Line.bytes
    rw [← List.map_append, List.take_append_drop]
  . rfl
  . exact List.suffix_refl _
  . rfl

-- What a receive that returns `ret` and leaves `l'` has done to `l`: it takes what it returns, and only
-- an interrupted call need not take anything to make progress.
structure Receives (l : Line) (n : Nat) (ret : Return) (l' : Line) : Prop where
  took : ∃ chunk, Took l chunk l' ∧ chunk.length ≤ n ∧
    (ret = .bytes chunk ∧ chunk ≠ [] ∨ chunk = [] ∧ ∀ chunk, ret ≠ .bytes chunk)
  intr : ret = .intr → l'.turns.length < l.turns.length

theorem receives_of_took {l l' : Line} {n : Nat} {ret : Return} (h : Took l [] l')
    (hbytes : ∀ chunk, ret ≠ .bytes chunk)
    (hintr : ret = .intr → l'.turns.length < l.turns.length)
    : Receives l n ret l' := by
  refine ⟨⟨[], h, ?_, .inr ⟨rfl, hbytes⟩⟩, hintr⟩
  simp

theorem receives_deliver {l l₀ : Line} {n k : Nat} (h : Took l [] l₀)
    (hk : k ≤ l₀.incoming.length) (hpos : 0 < k) (hn : k ≤ n)
    : Receives l n (l₀.deliver k).1 (l₀.deliver k).2 := by
  obtain ⟨htook, hlen⟩ := deliver_took hk rfl
  constructor
  . refine ⟨_, h.trans htook, ?_, .inl ⟨rfl, ?_⟩⟩
    . rw [List.nil_append, hlen]
      exact hn
    . intro hnil
      rw [List.nil_append] at hnil
      rw [hnil, List.length_nil] at hlen
      omega
  . intro hcontra
    unfold deliver at hcontra
    contradiction

theorem read_receives (l : Line) (n : Nat)
    : Receives l n (l.read n).1 (l.read n).2 := by
  have htook := turn_took l
  have hle := arrived_le l.turn.2
  unfold read
  dsimp only
  cases hout : l.turn.1.outcome with
  | done =>
    dsimp only
    split
    . exact receives_of_took htook (by simp) (by simp)
    . next hpos => exact receives_deliver htook (by omega) (by omega) (by omega)
  | intr => exact receives_of_took htook (by simp) fun _ => turn_length (by simp [hout])
  | hangup => exact receives_of_took htook (by simp) (by simp)
  | again => exact receives_of_took htook (by simp) (by simp)
  | error => exact receives_of_took htook (by simp) (by simp)

-- What has arrived is read.
theorem read_arrived {l : Line} {n : Nat} (hn : 0 < n) (hdone : l.turn.1.outcome = .done)
    (harrived : 0 < l.turn.2.arrived)
    : ∃ chunk, (l.read n).1 = .bytes chunk := by
  unfold read
  dsimp only
  rw [hdone]
  dsimp only
  rw [if_neg (by omega)]
  exact ⟨_, rfl⟩

theorem arrived_wake_pos {l : Line} {next : Arrival} {later : List Arrival}
    (h : l.incoming = next :: later)
    : 0 < (l.wake next.time).arrived := by
  unfold arrived wake
  rw [h, List.takeWhile_cons_of_pos (by apply decide_eq_true; exact Nat.le_max_right _ _)]
  simp

theorem recv_receives (l : Line) (n : Nat) (hn : 0 < n)
    : Receives l n (l.recv n).1 (l.recv n).2 := by
  have htook := turn_took l
  unfold recv
  dsimp only
  cases hout : l.turn.1.outcome with
  | done =>
    dsimp only
    split
    . exact receives_of_took htook (by simp) (by simp)
    . exact receives_of_took (htook.trans (pass_took _ _)) (by simp) (by simp)
    . next _ timeout next later hnext =>
      split
      . exact receives_of_took (htook.trans (pass_took _ _)) (by simp) (by simp)
      . have hle := arrived_le (l.turn.2.wake next.time)
        have hpos := arrived_wake_pos hnext
        exact receives_deliver (htook.trans (wake_took _ _)) (by omega) (by omega) (by omega)
  | intr => exact receives_of_took htook (by simp) fun _ => turn_length (by simp [hout])
  | hangup => exact receives_of_took htook (by simp) (by simp)
  | again => exact receives_of_took htook (by simp) (by simp)
  | error => exact receives_of_took htook (by simp) (by simp)

theorem Receives.bytes {l l' : Line} {n : Nat} {chunk : List UInt8}
    (h : Receives l n (.bytes chunk) l')
    : Took l chunk l' ∧ chunk.length ≤ n ∧ chunk ≠ [] := by
  obtain ⟨chunk', htook, hle, heq | hne⟩ := h.took
  . obtain ⟨heq, hne⟩ := heq
    injection heq with heq
    subst heq
    exact ⟨htook, hle, hne⟩
  . exact absurd rfl (hne.2 chunk)

theorem Receives.other {l l' : Line} {n : Nat} {ret : Return} (h : Receives l n ret l')
    (hret : ∀ chunk, ret ≠ .bytes chunk)
    : Took l [] l' := by
  obtain ⟨chunk, htook, hle, heq | hne⟩ := h.took
  . exact absurd heq.1 (hret chunk)
  . exact hne.1 ▸ htook

theorem Receives.any {l l' : Line} {n : Nat} {ret : Return} (h : Receives l n ret l')
    : ∃ chunk, Took l chunk l' := by
  obtain ⟨chunk, htook, -⟩ := h.took
  exact ⟨chunk, htook⟩

-- What `recvLoop` may leave, whatever happens: what it has received is gone from the line, and the
-- status is `ok` exactly when all of it is there.
structure ReceivesAll (l : Line) (len : Nat) (status : Status) (got : List UInt8) (l' : Line)
    : Prop where
  took : Took l got l'
  ok : status = .ok → got.length = len
  short : status ≠ .ok → got.length < len

theorem recvLoop_receives (l : Line) (len fuel : Nat) (hfuel : l.effort < fuel)
    : ReceivesAll l len (l.recvLoop len fuel).1 (l.recvLoop len fuel).2.1
        (l.recvLoop len fuel).2.2 := by
  induction fuel generalizing l len with
  | zero => omega
  | succ fuel ih =>
    unfold recvLoop
    split
    . next hzero => exact ⟨Took.refl l, by simp [hzero], by simp⟩
    . next hzero =>
      have hrecv := recv_receives l len (by omega)
      split
      . next chunk l' heq =>
        rw [heq] at hrecv
        dsimp only at hrecv ⊢
        obtain ⟨htook, hle, hne⟩ := hrecv.bytes
        have hpos := List.length_pos_iff.mpr hne
        have heffort := htook.effort
        have hrest := ih l' (len - chunk.length) (by omega)
        generalize l'.recvLoop (len - chunk.length) fuel = result at hrest
        obtain ⟨status, rest, l''⟩ := result
        constructor
        . exact htook.trans hrest.took
        . intro hok
          have hlen : rest.length = len - chunk.length := hrest.ok hok
          rw [List.length_append]
          dsimp only
          omega
        . intro hfail
          have hlen : rest.length < len - chunk.length := hrest.short hfail
          rw [List.length_append]
          dsimp only
          omega
      . next l' heq =>
        rw [heq] at hrecv
        dsimp only at hrecv ⊢
        have htook := hrecv.other (by simp)
        have hlt := hrecv.intr rfl
        have hlen := congrArg List.length htook.incoming
        have hrest := ih l' len (by simp [effort] at hfuel hlen ⊢; omega)
        exact ⟨htook.trans hrest.took, hrest.ok, hrest.short⟩
      all_goals
        next l' heq =>
          rw [heq] at hrecv
          exact ⟨hrecv.other (by simp), by simp, by simp; omega⟩

theorem recvAll_receives (l : Line) (len : Nat)
    : ReceivesAll l len (l.recvAll len).1 (l.recvAll len).2.1 (l.recvAll len).2.2 := by
  apply recvLoop_receives
  omega

theorem ReceivesAll.got_eq {l l' : Line} {len : Nat} {status : Status} {got : List UInt8}
    (h : ReceivesAll l len status got l') (hok : status = .ok)
    : got = l.bytes.take len ∧ l'.bytes = l.bytes.drop len ∧ len ≤ l.bytes.length := by
  have hlen := h.ok hok
  rw [h.took.bytes, ← hlen]
  simp

-- `l'` is what is left of `l` once `sent` has gone out.
structure Put (l : Line) (sent : List UInt8) (l' : Line) : Prop where
  outgoing : l'.outgoing = l.outgoing ++ sent
  incoming : l'.incoming = l.incoming
  turns : l'.turns <:+ l.turns
  recvTimeout : l'.recvTimeout = l.recvTimeout

theorem Put.trans {l l' l'' : Line} {sent sent' : List UInt8} (h : Put l sent l')
    (h' : Put l' sent' l'')
    : Put l (sent ++ sent') l'' := by
  constructor
  . rw [h'.outgoing, h.outgoing, List.append_assoc]
  . rw [h'.incoming, h.incoming]
  . exact h'.turns.trans h.turns
  . rw [h'.recvTimeout, h.recvTimeout]

theorem Put.refl (l : Line)
    : Put l [] l := by
  constructor
  all_goals simp

theorem Put.rest {l l' : Line} {sent : List UInt8} (h : Put l sent l')
    : l'.bytes <:+ l.bytes := by
  have hbytes : l'.bytes = l.bytes := by
    unfold bytes
    rw [h.incoming]
  exact ⟨[], hbytes⟩

theorem turn_put (l : Line)
    : Put l [] l.turn.2 := by
  unfold turn
  split
  . exact Put.refl l
  . next hturns =>
    constructor
    all_goals simp [hturns, pass]

theorem pass_put (l : Line) (us : Nat)
    : Put l [] (l.pass us) := by
  constructor
  all_goals simp [pass]

theorem write_put (l : Line) (buf : List UInt8) (hbuf : buf ≠ [])
    : ∃ sent, Put l sent (l.write buf).2 ∧
      ((l.write buf).1 = .bytes sent ∧ sent ≠ [] ∧ sent <+: buf ∨
        sent = [] ∧ (l.write buf).2.turns.length < l.turns.length ∧
          ∀ chunk, (l.write buf).1 ≠ .bytes chunk) := by
  have hput := turn_put l
  unfold write
  dsimp only
  cases hout : l.turn.1.outcome with
  | done =>
    refine ⟨buf.take (l.turn.1.limit + 1), ?_, .inl ⟨rfl, ?_, List.take_prefix _ _⟩⟩
    . constructor
      . simp [hput.outgoing]
      . exact hput.incoming
      . exact hput.turns
      . exact hput.recvTimeout
    . simpa using hbuf
  | _ =>
    refine ⟨[], hput, .inr ⟨rfl, turn_length ?_, ?_⟩⟩
    . rw [hout]
      intro hcontra
      contradiction
    . intro chunk hcontra
      contradiction

theorem writeLoop_put (retry : Bool) (l : Line) (buf : List UInt8) (fuel : Nat)
    (hfuel : l.turns.length + buf.length < fuel)
    : ∃ sent, Put l sent (l.writeLoop retry buf fuel).2 ∧ sent <+: buf ∧
      ((l.writeLoop retry buf fuel).1 = true → sent = buf) := by
  induction fuel generalizing l buf with
  | zero => omega
  | succ fuel ih =>
    unfold writeLoop
    split
    . next hnil => exact ⟨[], Put.refl l, List.nil_prefix, by simp [hnil]⟩
    . next hnil =>
      obtain ⟨sent, hput, hsent⟩ := write_put l buf hnil
      have hfail : ∀ {l' ret}, l.write buf = (ret, l') → (∀ chunk, ret ≠ .bytes chunk)
          → Put l [] l' ∧ l'.turns.length < l.turns.length := by
        intro l' ret heq hret
        rw [heq] at hput hsent
        obtain hsent | ⟨rfl, hlt, -⟩ := hsent
        . exact absurd hsent.1 (hret sent)
        . exact ⟨hput, hlt⟩
      split
      . next chunk l' heq =>
        rw [heq] at hput hsent
        obtain ⟨hchunk, hne, suffix, hsuffix⟩ | ⟨-, -, hret⟩ := hsent
        . injection hchunk with hchunk
          subst hchunk
          have hpos := List.length_pos_iff.mpr hne
          have hturns := hput.turns.length_le
          have hdrop : buf.drop chunk.length = suffix := by simp [← hsuffix]
          have hlen := congrArg List.length hsuffix
          rw [List.length_append] at hlen
          dsimp only at hturns
          obtain ⟨rest, hrest, hprefix, hall⟩ := ih l' suffix (by omega)
          rw [hdrop]
          refine ⟨chunk ++ rest, hput.trans hrest, ?_, ?_⟩
          . rw [← hsuffix]
            exact (List.prefix_append_right_inj chunk).mpr hprefix
          . intro hok
            rw [hall hok, hsuffix]
        . exact absurd rfl (hret chunk)
      . next l' heq =>
        obtain ⟨hput, hlt⟩ := hfail heq (by simp)
        obtain ⟨rest, hrest, hprefix, hall⟩ := ih l' buf (by omega)
        exact ⟨rest, hput.trans hrest, hprefix, hall⟩
      . next l' heq =>
        obtain ⟨hput, hlt⟩ := hfail heq (by simp)
        split
        . have hturn := turn_put l'
          have hle := hturn.turns.length_le
          obtain ⟨rest, hrest, hprefix, hall⟩ := ih l'.turn.2 buf (by omega)
          exact ⟨rest, (hput.trans hturn).trans hrest, hprefix, hall⟩
        . exact ⟨[], hput, List.nil_prefix, by simp⟩
      all_goals
        next l' heq => exact ⟨[], (hfail heq (by simp)).1, List.nil_prefix, by simp⟩

theorem writeAll_put (retry : Bool) (l : Line) (buf : List UInt8)
    : ∃ sent, Put l sent (l.writeAll retry buf).2 ∧ sent <+: buf ∧
      ((l.writeAll retry buf).1 = true → sent = buf) := by
  apply writeLoop_put
  omega

-- No call on the line fails: it moves at least a byte or is interrupted, and no wait for the peer is given
-- up.
structure Calm (l : Line) : Prop where
  turns : ∀ turn ∈ l.turns, turn.outcome = .done ∨ turn.outcome = .intr
  recvTimeout : l.recvTimeout = none

theorem Calm.took {l l' : Line} {chunk : List UInt8} (h : Calm l) (htook : Took l chunk l')
    : Calm l' := by
  constructor
  . intro turn hturn
    exact h.turns turn (htook.turns.subset hturn)
  . rw [htook.recvTimeout, h.recvTimeout]

theorem Calm.put {l l' : Line} {sent : List UInt8} (h : Calm l) (hput : Put l sent l')
    : Calm l' := by
  constructor
  . intro turn hturn
    exact h.turns turn (hput.turns.subset hturn)
  . rw [hput.recvTimeout, h.recvTimeout]

theorem Calm.turn_outcome {l : Line} (h : Calm l)
    : l.turn.1.outcome = .done ∨ l.turn.1.outcome = .intr := by
  unfold turn
  split
  . exact .inl rfl
  . next turn turns hturns => exact h.turns turn (by simp [hturns])

theorem Calm.recv {l : Line} (h : Calm l) (n : Nat) (hbytes : l.bytes ≠ [])
    : (l.recv n).1 = .intr ∨ ∃ chunk, (l.recv n).1 = .bytes chunk := by
  have hincoming : l.turn.2.incoming ≠ [] := by
    rw [(turn_took l).incoming]
    simpa [bytes] using hbytes
  have htimeout : l.turn.2.recvTimeout = none := by
    rw [(turn_took l).recvTimeout, h.recvTimeout]
  unfold Line.recv
  dsimp only
  cases h.turn_outcome with
  | inr hintr =>
    left
    rw [hintr]
  | inl hdone =>
    right
    rw [hdone, htimeout]
    cases hnext : l.turn.2.incoming with
    | nil => contradiction
    | cons next later => exact ⟨_, rfl⟩

theorem Calm.recvLoop {l : Line} (h : Calm l) (len fuel : Nat) (hfuel : l.effort < fuel)
    (hlen : len ≤ l.bytes.length)
    : (l.recvLoop len fuel).1 = .ok := by
  induction fuel generalizing l len with
  | zero => omega
  | succ fuel ih =>
    unfold Line.recvLoop
    split
    . rfl
    . next hzero =>
      have hrecv := recv_receives l len (by omega)
      have hcalm := h.recv len (List.length_pos_iff.mp (by omega))
      split
      . next chunk l' heq =>
        rw [heq] at hrecv
        obtain ⟨htook, hle, hne⟩ := hrecv.bytes
        have hpos := List.length_pos_iff.mpr hne
        have heffort := htook.effort
        have hbytes := congrArg List.length htook.bytes
        rw [List.length_append] at hbytes
        dsimp only
        exact ih (h.took htook) (len - chunk.length) (by omega) (by omega)
      . next l' heq =>
        rw [heq] at hrecv
        have htook := hrecv.other (by simp)
        have hlt := hrecv.intr rfl
        have hbytes := congrArg List.length htook.bytes
        have hincoming := congrArg List.length htook.incoming
        rw [List.nil_append] at hbytes
        simp [effort] at hfuel hlt hincoming ⊢
        exact ih (h.took htook) len (by simp [effort]; omega) (by omega)
      all_goals
        next l' heq =>
          rw [heq] at hcalm
          simp at hcalm

theorem Calm.recvAll {l : Line} (h : Calm l) (len : Nat) (hlen : len ≤ l.bytes.length)
    : (l.recvAll len).1 = .ok := by
  apply h.recvLoop _ _ _ hlen
  omega

theorem Calm.write {l : Line} (h : Calm l) (buf : List UInt8)
    : (l.write buf).1 = .intr ∨ ∃ chunk, (l.write buf).1 = .bytes chunk := by
  unfold Line.write
  dsimp only
  cases h.turn_outcome with
  | inr hintr =>
    left
    rw [hintr]
  | inl hdone =>
    right
    rw [hdone]
    exact ⟨_, rfl⟩

theorem Calm.writeLoop {l : Line} (h : Calm l) (retry : Bool) (buf : List UInt8) (fuel : Nat)
    (hfuel : l.turns.length + buf.length < fuel)
    : (l.writeLoop retry buf fuel).1 = true := by
  induction fuel generalizing l buf with
  | zero => omega
  | succ fuel ih =>
    unfold Line.writeLoop
    split
    . rfl
    . next hnil =>
      obtain ⟨sent, hput, hsent⟩ := write_put l buf hnil
      have hcalm := h.write buf
      split
      . next chunk l' heq =>
        rw [heq] at hput hsent
        obtain ⟨hchunk, hne, suffix, hsuffix⟩ | ⟨-, -, hret⟩ := hsent
        . injection hchunk with hchunk
          subst hchunk
          have hpos := List.length_pos_iff.mpr hne
          have hturns := hput.turns.length_le
          have hbuf := congrArg List.length hsuffix
          rw [List.length_append] at hbuf
          dsimp only at hput hturns
          exact ih (h.put hput) _ (by rw [List.length_drop]; omega)
        . exact absurd rfl (hret chunk)
      . next l' heq =>
        rw [heq] at hput hsent
        obtain ⟨hchunk, -⟩ | ⟨-, hlt, -⟩ := hsent
        . contradiction
        . dsimp only at hput hlt
          exact ih (h.put hput) _ (by omega)
      all_goals
        next l' heq =>
          rw [heq] at hcalm
          simp at hcalm

theorem Calm.writeAll {l : Line} (h : Calm l) (retry : Bool) (buf : List UInt8)
    : (l.writeAll retry buf).1 = true := by
  apply h.writeLoop
  omega

end Line

end Posix
