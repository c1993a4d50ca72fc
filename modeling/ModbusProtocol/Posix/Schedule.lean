import ModbusProtocol.Posix.Lemmas

/-!
This module contains when the bytes of a schedule are there for a program that waits for them, where no
system call takes time of its own.
-/

namespace Posix

-- When all of these bytes are there for one who waits from `now` on.
def due (now : Nat) (arrivals : List Arrival) : Nat :=
  arrivals.foldl (fun now arrival => max now arrival.time) now

section

variable {now : Nat} {arrivals : List Arrival}

@[simp]
theorem due_nil (now : Nat)
    : due now [] = now := by
  rfl

@[simp]
theorem due_cons (now : Nat) (next : Arrival) (later : List Arrival)
    : due now (next :: later) = due (max now next.time) later := by
  rfl

theorem due_append (now : Nat) (arrivals arrivals' : List Arrival)
    : due now (arrivals ++ arrivals') = due (due now arrivals) arrivals' := by
  unfold due
  rw [List.foldl_append]

theorem le_due (now : Nat) (arrivals : List Arrival)
    : now ≤ due now arrivals := by
  induction arrivals generalizing now with
  | nil => simp
  | cons next later ih =>
    rw [due_cons]
    exact Nat.le_trans (Nat.le_max_left _ _) (ih _)

theorem time_le_due (now : Nat) {arrival : Arrival} (h : arrival ∈ arrivals)
    : arrival.time ≤ due now arrivals := by
  induction arrivals generalizing now with
  | nil => contradiction
  | cons next later ih =>
    rw [due_cons]
    rw [List.mem_cons] at h
    cases h with
    | inl heq =>
      rw [heq]
      exact Nat.le_trans (Nat.le_max_right _ _) (le_due _ _)
    | inr hmem => exact ih _ hmem

theorem due_le {limit : Nat} (hnow : now ≤ limit) (h : ∀ arrival ∈ arrivals, arrival.time ≤ limit)
    : due now arrivals ≤ limit := by
  induction arrivals generalizing now with
  | nil => exact hnow
  | cons next later ih =>
    rw [List.forall_mem_cons] at h
    rw [due_cons]
    apply ih
    . exact Nat.max_le.mpr ⟨hnow, h.1⟩
    . exact h.2

theorem due_mono {now' : Nat} (h : now ≤ now') (arrivals : List Arrival)
    : due now arrivals ≤ due now' arrivals := by
  apply due_le
  . exact Nat.le_trans h (le_due _ _)
  . intro arrival hmem
    exact time_le_due now' hmem

theorem due_of_arrived (h : ∀ arrival ∈ arrivals, arrival.time ≤ now)
    : due now arrivals = now := by
  apply Nat.le_antisymm
  . apply due_le (Nat.le_refl now) h
  . apply le_due

end

-- What becomes of the wait for so many bytes, for each of them at most `timeout`: whether they come, when
-- that is known, and what is still to come.
def gather (timeout : Nat) : Nat → Nat → List Arrival → Bool × Nat × List Arrival
  | 0, now, arrivals => (true, now, arrivals)
  | _ + 1, now, [] => (false, now + timeout, [])
  | k + 1, now, next :: later =>
    if now + timeout < next.time then
      (false, now + timeout, next :: later)
    else
      gather timeout k (max now next.time) later

section

variable {timeout k now : Nat} {arrivals : List Arrival}

theorem gather_true (h : (gather timeout k now arrivals).1 = true)
    : k ≤ arrivals.length ∧
      gather timeout k now arrivals = (true, due now (arrivals.take k), arrivals.drop k) := by
  induction k generalizing now arrivals with
  | zero => simp [gather]
  | succ k ih =>
    cases arrivals with
    | nil => simp [gather] at h
    | cons next later =>
      unfold gather at h ⊢
      split at h
      . contradiction
      . next hsoon =>
        rw [if_neg hsoon]
        obtain ⟨hle, heq⟩ := ih h
        exact ⟨Nat.succ_le_succ hle, heq⟩

-- The wait is given up in front of a byte that does not come soon enough.
theorem gather_false (h : (gather timeout k now arrivals).1 = false)
    : ∃ j, j < k ∧ j ≤ arrivals.length ∧
      (gather timeout k now arrivals).2 = (due now (arrivals.take j) + timeout, arrivals.drop j) ∧
      ∀ arrival, arrivals[j]? = some arrival → due now (arrivals.take j) + timeout < arrival.time := by
  induction k generalizing now arrivals with
  | zero => simp [gather] at h
  | succ k ih =>
    cases arrivals with
    | nil => exact ⟨0, by omega, by simp, rfl, by simp⟩
    | cons next later =>
      unfold gather at h ⊢
      split at h
      . next hlate =>
        rw [if_pos hlate]
        refine ⟨0, by omega, by simp, rfl, ?_⟩
        intro arrival heq
        rw [List.getElem?_cons_zero] at heq
        injection heq with heq
        rw [← heq]
        exact hlate
      . next hsoon =>
        rw [if_neg hsoon]
        obtain ⟨j, hlt, hle, heq, hlate⟩ := ih h
        exact ⟨j + 1, by omega, Nat.succ_le_succ hle, heq, hlate⟩

theorem le_gather (timeout k now : Nat) (arrivals : List Arrival)
    : now ≤ (gather timeout k now arrivals).2.1 := by
  cases h : (gather timeout k now arrivals).1 with
  | true =>
    rw [(gather_true h).2]
    apply le_due
  | false =>
    obtain ⟨j, -, -, heq, -⟩ := gather_false h
    rw [heq]
    exact Nat.le_trans (le_due _ _) (Nat.le_add_right _ _)

theorem gather_add (timeout j k now : Nat) (arrivals : List Arrival)
    : gather timeout (j + k) now arrivals
        =
      match gather timeout j now arrivals with
      | (true, now, arrivals) => gather timeout k now arrivals
      | (false, now, arrivals) => (false, now, arrivals) := by
  induction j generalizing now arrivals with
  | zero =>
    rw [Nat.zero_add]
    rfl
  | succ j ih =>
    rw [Nat.add_right_comm]
    cases arrivals with
    | nil => rfl
    | cons next later =>
      rw [gather, gather]
      split
      . rfl
      . apply ih

-- Bytes that are there are not waited for.
theorem gather_arrived {j : Nat} (hj : j ≤ k) (hlen : j ≤ arrivals.length)
    (h : ∀ arrival ∈ arrivals.take j, arrival.time ≤ now)
    : gather timeout k now arrivals = gather timeout (k - j) now (arrivals.drop j) := by
  induction j generalizing k arrivals with
  | zero => rfl
  | succ j ih =>
    cases arrivals with
    | nil => simp at hlen
    | cons next later =>
      rw [List.take_succ_cons, List.forall_mem_cons] at h
      obtain ⟨k, rfl⟩ : ∃ n, k = n + 1 := Nat.exists_eq_succ_of_ne_zero (by omega)
      rw [gather, if_neg (by omega), Nat.max_eq_left h.1, List.drop_succ_cons, Nat.add_sub_add_right]
      apply ih
      . omega
      . exact Nat.le_of_succ_le_succ hlen
      . exact h.2

theorem gather_wake {next : Arrival} {later : List Arrival} (h : next.time ≤ now + timeout)
    : gather timeout k now (next :: later)
        =
      if k = 0 then (true, now, next :: later)
      else gather timeout k (max now next.time) (next :: later) := by
  cases k with
  | zero => rfl
  | succ k =>
    rw [if_neg (by omega), gather, gather, if_neg (by omega), if_neg (by omega)]
    rw [Nat.max_eq_left (Nat.le_max_right _ _)]

end

-- What becomes of the wait for the first byte: whether it comes, and when that is known.
def await (timeout : Option Nat) (now : Nat) : List Arrival → Bool × Nat
  | [] => (timeout = none, now + timeout.getD Line.endless)
  | next :: _ =>
    match timeout with
    | none => (true, max now next.time)
    | some timeout =>
      if next.time ≤ now + timeout then
        (true, max now next.time)
      else
        (false, now + timeout)

theorem await_le (timeout now : Nat) (arrivals : List Arrival)
    : (await (some timeout) now arrivals).2 ≤ now + timeout := by
  cases arrivals with
  | nil => apply Nat.le_refl
  | cons next later =>
    rw [await]
    split
    . next hsoon => exact Nat.max_le.mpr ⟨Nat.le_add_right _ _, hsoon⟩
    . apply Nat.le_refl

theorem await_cons {timeout : Option Nat} {now : Nat} {next : Arrival} {later : List Arrival}
    (h : (await timeout now (next :: later)).1 = true)
    : (await timeout now (next :: later)).2 = max now next.time := by
  cases timeout with
  | none => rfl
  | some timeout =>
    rw [await] at h ⊢
    split at h
    . next hsoon => rw [if_pos hsoon]
    . contradiction

theorem await_asleep {timeout now : Nat} {arrivals : List Arrival}
    (h : (await (some timeout) now arrivals).1 = false)
    : (await (some timeout) now arrivals).2 = now + timeout ∧
      ∀ next later, arrivals = next :: later → now + timeout < next.time := by
  cases arrivals with
  | nil => exact ⟨rfl, by simp⟩
  | cons next later =>
    rw [await] at h ⊢
    split at h
    . contradiction
    . next hlate =>
      rw [if_neg hlate]
      refine ⟨rfl, ?_⟩
      intro next' later' heq
      injection heq with heq
      rw [← heq]
      exact Nat.not_le.mp hlate

-- A wait with a limit is ended by a byte.
theorem await_ready {timeout now : Nat} {arrivals : List Arrival}
    (h : (await (some timeout) now arrivals).1 = true)
    : ∃ next later, arrivals = next :: later ∧ next.time ≤ (await (some timeout) now arrivals).2 := by
  cases arrivals with
  | nil => contradiction
  | cons next later =>
    rw [await_cons h]
    exact ⟨next, later, rfl, Nat.le_max_right _ _⟩

-- Whoever has waited for the first byte need not wait for it again.
theorem due_await {timeout : Option Nat} {now k : Nat} {arrivals : List Arrival} (hk : 0 < k)
    (hlen : k ≤ arrivals.length) (h : (await timeout now arrivals).1 = true)
    : due (await timeout now arrivals).2 (arrivals.take k) = due now (arrivals.take k) := by
  obtain ⟨k, rfl⟩ := Nat.exists_eq_succ_of_ne_zero (Nat.ne_of_gt hk)
  cases arrivals with
  | nil => simp at hlen
  | cons next later =>
    rw [await_cons h, List.take_succ_cons, due_cons, due_cons]
    rw [Nat.max_assoc, Nat.max_self]

theorem le_await (timeout : Option Nat) (now : Nat) (arrivals : List Arrival)
    : now ≤ (await timeout now arrivals).2 := by
  cases arrivals with
  | nil => apply Nat.le_add_right
  | cons next later =>
    cases timeout with
    | none => apply Nat.le_max_left
    | some timeout =>
      rw [await]
      split
      . apply Nat.le_max_left
      . apply Nat.le_add_right

namespace Line

-- The coming system calls take no time of their own and do not fail, they may be interrupted and move less
-- than they could.
structure Prompt (l : Line) : Prop where
  delay : ∀ turn ∈ l.turns, turn.delay = 0
  outcome : ∀ turn ∈ l.turns, turn.outcome = .done ∨ turn.outcome = .intr

theorem Prompt.of_turns {l l' : Line} (h : Prompt l) (hturns : l'.turns <:+ l.turns)
    : Prompt l' := by
  constructor
  . intro turn hmem
    exact h.delay turn (hturns.subset hmem)
  . intro turn hmem
    exact h.outcome turn (hturns.subset hmem)

theorem Prompt.turn {l : Line} (h : Prompt l)
    : Prompt l.turn.2 ∧ l.turn.2.now = l.now ∧ l.turn.2.incoming = l.incoming ∧
      l.turn.2.recvTimeout = l.recvTimeout ∧
      (l.turn.1.outcome = .done ∨ l.turn.1.outcome = .intr) := by
  have htook := turn_took l
  refine ⟨h.of_turns htook.turns, ?_, htook.incoming, htook.recvTimeout, ?_⟩
  . unfold Line.turn
    split
    . rfl
    . next turn turns hturns =>
      have hdelay := h.delay turn (by simp [hturns])
      simp [pass, hdelay]
  . unfold Line.turn
    split
    . exact .inl rfl
    . next turn turns hturns =>
      apply h.outcome turn
      simp [hturns]

-- What a call that moves no byte may do to a prompt line that lets the time be `now`.
structure Idles (l : Line) (now : Nat) (l' : Line) : Prop where
  prompt : Prompt l'
  now : l'.now = now
  incoming : l'.incoming = l.incoming
  recvTimeout : l'.recvTimeout = l.recvTimeout

theorem Prompt.idles {l : Line} (h : Prompt l)
    : Idles l l.now l.turn.2 ∧ (l.turn.1.outcome = .done ∨ l.turn.1.outcome = .intr) := by
  obtain ⟨hprompt, hnow, hincoming, htimeout, hout⟩ := h.turn
  exact ⟨⟨hprompt, hnow, hincoming, htimeout⟩, hout⟩

theorem Idles.trans {l l' l'' : Line} {now now' : Nat} (h : Idles l now l') (h' : Idles l' now' l'')
    : Idles l now' l'' := by
  constructor
  . exact h'.prompt
  . exact h'.now
  . rw [h'.incoming, h.incoming]
  . rw [h'.recvTimeout, h.recvTimeout]

theorem Idles.pass {l l' : Line} {now : Nat} (h : Idles l now l') (us : Nat)
    : Idles l (now + us) (l'.pass us) := by
  constructor
  . exact h.prompt.of_turns (List.suffix_refl _)
  . change l'.now + us = now + us
    rw [h.now]
  . exact h.incoming
  . exact h.recvTimeout

theorem Idles.wake {l l' : Line} {now : Nat} (h : Idles l now l') (time : Nat)
    : Idles l (max now time) (l'.wake time) := by
  constructor
  . exact h.prompt.of_turns (List.suffix_refl _)
  . change max l'.now time = max now time
    rw [h.now]
  . exact h.incoming
  . exact h.recvTimeout

theorem Prompt.clock {l : Line} (h : Prompt l)
    : Idles l l.now l.clock.2 := by
  exact h.idles.1

theorem Prompt.poll {l : Line} (h : Prompt l) (timeout : Option Nat)
    : (l.poll timeout).1 = .intr ∧ Idles l l.now (l.poll timeout).2 ∨
      (l.poll timeout).1 = (if (await timeout l.now l.incoming).1 then .ready else .timeout) ∧
        Idles l (await timeout l.now l.incoming).2 (l.poll timeout).2 := by
  obtain ⟨hidles, hout⟩ := h.idles
  have hnow := hidles.now
  have hincoming := hidles.incoming
  unfold Line.poll
  cases timeout with
  | none =>
    dsimp only
    cases hout with
    | inr hintr =>
      rw [hintr]
      exact .inl ⟨rfl, hidles⟩
    | inl hdone =>
      right
      rw [hdone]
      dsimp only
      rw [← hincoming]
      cases l.turn.2.incoming with
      | nil => exact ⟨rfl, hidles.pass _⟩
      | cons next later => exact ⟨rfl, hidles.wake _⟩
  | some timeout =>
    unfold select
    dsimp only
    cases hout with
    | inr hintr =>
      rw [hintr]
      exact .inl ⟨rfl, hidles⟩
    | inl hdone =>
      right
      rw [hdone]
      dsimp only
      rw [← hincoming, hnow]
      cases l.turn.2.incoming with
      | nil => exact ⟨rfl, hidles.pass _⟩
      | cons next later =>
        simp only [await]
        split
        . exact ⟨rfl, hidles.wake _⟩
        . exact ⟨rfl, hidles.pass _⟩

-- What a receive on a prompt line may do.
inductive PromptRecv (timeout n : Nat) (l : Line) : Return → Line → Prop where
  | intr {l' : Line} (idles : Idles l l.now l') : PromptRecv timeout n l .intr l'
  | again {l' : Line} (idles : Idles l (l.now + timeout) l')
      (late : ∀ next later, l.incoming = next :: later → l.now + timeout < next.time)
      : PromptRecv timeout n l .again l'
  | bytes {l' : Line} {chunk : List UInt8} {next : Arrival} {later : List Arrival}
      (incoming : l.incoming = next :: later) (soon : next.time ≤ l.now + timeout)
      (prompt : Prompt l') (now : l'.now = max l.now next.time)
      (rest : l'.incoming = l.incoming.drop chunk.length) (pos : 0 < chunk.length)
      (le : chunk.length ≤ n) (len : chunk.length ≤ l.incoming.length)
      (arrived : ∀ arrival ∈ l.incoming.take chunk.length, arrival.time ≤ l'.now)
      (recvTimeout : l'.recvTimeout = l.recvTimeout) : PromptRecv timeout n l (.bytes chunk) l'

theorem take_arrived (l : Line) {k : Nat} (hk : k ≤ l.arrived)
    : ∀ arrival ∈ l.incoming.take k, arrival.time ≤ l.now := by
  intro arrival hmem
  have htake : l.incoming.take k = (l.incoming.takeWhile (·.time ≤ l.now)).take k := by
    unfold arrived at hk
    have hprefix := List.takeWhile_prefix (l := l.incoming) (p := (·.time ≤ l.now))
    rw [List.prefix_iff_eq_take.mp hprefix, List.take_take, Nat.min_eq_left hk]
  rw [htake] at hmem
  have hall := List.all_takeWhile (l := l.incoming) (p := (·.time ≤ l.now))
  simpa using List.all_eq_true.mp hall arrival (List.mem_of_mem_take hmem)

theorem drop_arrived {l : Line} {next : Arrival} {later : List Arrival}
    (h : l.incoming.drop l.arrived = next :: later)
    : l.now < next.time := by
  have hsplit := List.takeWhile_append_dropWhile (p := (·.time ≤ l.now)) (l := l.incoming)
  have hdrop : l.incoming.drop l.arrived = l.incoming.dropWhile (·.time ≤ l.now) := by
    unfold arrived
    generalize l.incoming.takeWhile (·.time ≤ l.now) = front at hsplit ⊢
    rw [← hsplit, List.drop_left, hsplit]
  rw [hdrop] at h
  have hhead := List.head?_dropWhile_not (·.time ≤ l.now) l.incoming
  rw [h] at hhead
  simpa using hhead

theorem Prompt.recv {l : Line} {timeout : Nat} (h : Prompt l) (htimeout : l.recvTimeout = some timeout)
    {n : Nat} (hn : 0 < n)
    : PromptRecv timeout n l (l.recv n).1 (l.recv n).2 := by
  obtain ⟨hidles, hout⟩ := h.idles
  have hnow := hidles.now
  have hincoming := hidles.incoming
  unfold Line.recv
  dsimp only
  rw [hidles.recvTimeout, htimeout]
  cases hout with
  | inr hintr =>
    rw [hintr]
    exact .intr hidles
  | inl hdone =>
    rw [hdone]
    dsimp only
    cases hnext : l.turn.2.incoming with
    | nil =>
      apply PromptRecv.again (hidles.pass timeout)
      intro next later heq
      rw [← hincoming, hnext] at heq
      contradiction
    | cons next later =>
      have hcons : l.incoming = next :: later := by
        rw [← hincoming, hnext]
      dsimp only [Option.any_some, Option.getD_some]
      rw [hnow]
      split
      . next hlate =>
        apply PromptRecv.again (hidles.pass timeout)
        intro next' later' heq
        rw [hcons] at heq
        injection heq with heq
        rw [← heq]
        exact of_decide_eq_true hlate
      . next hsoon =>
        have hwake := hidles.wake next.time
        have hpos := arrived_wake_pos hnext
        have hle := arrived_le (l.turn.2.wake next.time)
        generalize l.turn.2.wake next.time = l' at hwake hpos hle
        generalize hk : min l'.arrived (min n (l.turn.1.limit + 1)) = k
        have hlen : ((l'.incoming.take k).map Arrival.byte).length = k := by
          rw [List.length_map, List.length_take]
          omega
        unfold deliver
        apply PromptRecv.bytes hcons
        . have := of_decide_eq_false (Bool.eq_false_iff.mpr hsoon)
          omega
        . exact hwake.prompt.of_turns (List.suffix_refl _)
        . exact hwake.now
        . rw [hlen, ← hwake.incoming]
        . omega
        . omega
        . rw [← hwake.incoming]
          omega
        . rw [hlen, ← hwake.incoming]
          apply take_arrived
          omega
        . exact hwake.recvTimeout

-- What `recvAll` makes of a prompt line.
structure Gathers (timeout len : Nat) (l : Line) (status : Status) (l' : Line) : Prop where
  prompt : Prompt l'
  recvTimeout : l'.recvTimeout = some timeout
  outcome : status = .ok ∨ status = .again
  gather : gather timeout len l.now l.incoming = (decide (status = .ok), l'.now, l'.incoming)

theorem Prompt.recvLoop {l : Line} {timeout : Nat} (h : Prompt l)
    (htimeout : l.recvTimeout = some timeout) {len fuel : Nat} (hfuel : l.effort < fuel)
    : Gathers timeout len l (l.recvLoop len fuel).1 (l.recvLoop len fuel).2.2 := by
  induction fuel generalizing l len with
  | zero => omega
  | succ fuel ih =>
    unfold Line.recvLoop
    split
    . next hzero =>
      subst hzero
      exact ⟨h, htimeout, .inl rfl, rfl⟩
    . next hlen =>
      have hrecv := h.recv htimeout (Nat.pos_of_ne_zero hlen)
      have hreceives := recv_receives l len (Nat.pos_of_ne_zero hlen)
      generalize l.recv len = result at hrecv hreceives
      obtain ⟨ret, l'⟩ := result
      dsimp only at hrecv hreceives
      cases hrecv with
      | intr hidles =>
        have hturns := hreceives.intr rfl
        have hrest : Gathers timeout len l' (l'.recvLoop len fuel).1 (l'.recvLoop len fuel).2.2 := by
          apply ih hidles.prompt
          . rw [hidles.recvTimeout, htimeout]
          . unfold effort at hfuel ⊢
            rw [hidles.incoming]
            omega
        refine ⟨hrest.prompt, hrest.recvTimeout, hrest.outcome, ?_⟩
        rw [← hrest.gather, hidles.now, hidles.incoming]
      | again hidles hlate =>
        refine ⟨hidles.prompt, by rw [hidles.recvTimeout, htimeout], .inr rfl, ?_⟩
        dsimp only
        rw [hidles.now, hidles.incoming]
        obtain ⟨len, rfl⟩ := Nat.exists_eq_succ_of_ne_zero hlen
        cases hincoming : l.incoming with
        | nil => rfl
        | cons next later =>
          rw [Posix.gather, if_pos (hlate next later hincoming)]
          rfl
      | @bytes _ chunk next later hincoming hsoon hprompt hnow hrest hpos hle hlen' harrived hsame =>
        have heffort := hreceives.bytes.1.effort
        have hrest' : Gathers timeout (len - chunk.length) l'
            (l'.recvLoop (len - chunk.length) fuel).1 (l'.recvLoop (len - chunk.length) fuel).2.2 := by
          apply ih hprompt
          . rw [hsame, htimeout]
          . omega
        refine ⟨hrest'.prompt, hrest'.recvTimeout, hrest'.outcome, ?_⟩
        dsimp only
        rw [← hrest'.gather, hrest, ← gather_arrived hle hlen' harrived, hincoming,
          gather_wake hsoon, if_neg hlen, hnow]

theorem Prompt.recvAll {l : Line} {timeout : Nat} (h : Prompt l)
    (htimeout : l.recvTimeout = some timeout) (len : Nat)
    : Gathers timeout len l (l.recvAll len).1 (l.recvAll len).2.2 := by
  apply h.recvLoop htimeout
  omega

-- `l'` is what time and a program that waits for bytes leave of `l`: it has got none before its time.
def Waited (l l' : Line) : Prop :=
  ∃ k, l'.incoming = l.incoming.drop k ∧ due l.now (l.incoming.take k) ≤ l'.now

theorem Waited.trans {l l' l'' : Line} (h : Waited l l') (h' : Waited l' l'')
    : Waited l l'' := by
  obtain ⟨k, hdrop, hdue⟩ := h
  obtain ⟨k', hdrop', hdue'⟩ := h'
  refine ⟨k + k', ?_, ?_⟩
  . rw [hdrop', hdrop, List.drop_drop]
  . rw [List.take_add, due_append, ← hdrop]
    exact Nat.le_trans (due_mono hdue _) hdue'

theorem Waited.now_le {l l' : Line} (h : Waited l l')
    : l.now ≤ l'.now := by
  obtain ⟨k, -, hdue⟩ := h
  exact Nat.le_trans (le_due _ _) hdue

theorem Idles.waited {l l' : Line} {now : Nat} (h : Idles l now l') (hnow : l.now ≤ now)
    : Waited l l' := by
  refine ⟨0, h.incoming, ?_⟩
  rw [h.now]
  exact hnow

theorem waited_of_gather {l l' : Line} {timeout k start : Nat} {whole : Bool} (hstart : l.now ≤ start)
    (h : gather timeout k start l.incoming = (whole, l'.now, l'.incoming))
    : Waited l l' := by
  cases whole with
  | true =>
    rw [(gather_true (congrArg Prod.fst h)).2] at h
    injection h with _ h
    injection h with hnow hincoming
    refine ⟨k, hincoming.symm, ?_⟩
    rw [← hnow]
    exact due_mono hstart _
  | false =>
    obtain ⟨j, -, -, heq, -⟩ := gather_false (congrArg Prod.fst h)
    rw [h] at heq
    injection heq with hnow hincoming
    refine ⟨j, hincoming, ?_⟩
    rw [hnow]
    exact Nat.le_trans (due_mono hstart _) (Nat.le_add_right _ _)

-- What a read of bytes that have arrived does to a prompt line.
structure Delivers (n : Nat) (l : Line) (chunk : List UInt8) (l' : Line) : Prop where
  prompt : Prompt l'
  now : l'.now = l.now
  rest : l'.incoming = l.incoming.drop chunk.length
  pos : 0 < chunk.length
  le : chunk.length ≤ n
  len : chunk.length ≤ l.incoming.length
  arrived : ∀ arrival ∈ l.incoming.take chunk.length, arrival.time ≤ l.now

theorem Prompt.read {l : Line} (h : Prompt l) {n : Nat} (hn : 0 < n) (harrived : 0 < l.arrived)
    : (l.read n).1 = .intr ∧ Idles l l.now (l.read n).2 ∨
      ∃ chunk, (l.read n).1 = .bytes chunk ∧ Delivers n l chunk (l.read n).2 := by
  obtain ⟨hidles, hout⟩ := h.idles
  have hsame : l.turn.2.arrived = l.arrived := by
    unfold Line.arrived
    rw [hidles.incoming, hidles.now]
  have hle := arrived_le l
  unfold Line.read
  dsimp only
  cases hout with
  | inr hintr =>
    rw [hintr]
    exact .inl ⟨rfl, hidles⟩
  | inl hdone =>
    rw [hdone]
    dsimp only
    rw [hsame, if_neg (by omega)]
    generalize hk : min l.arrived (min n (l.turn.1.limit + 1)) = k
    have hlen : ((l.incoming.take k).map Arrival.byte).length = k := by
      rw [List.length_map, List.length_take]
      omega
    refine .inr ⟨(l.incoming.take k).map Arrival.byte, ?_, ?_⟩
    . unfold deliver
      rw [hidles.incoming]
    . unfold deliver
      constructor
      . exact hidles.prompt.of_turns (List.suffix_refl _)
      . exact hidles.now
      . rw [hlen, ← hidles.incoming]
      . omega
      . omega
      . omega
      . rw [hlen]
        apply take_arrived
        omega

theorem Delivers.waited {l l' : Line} {n : Nat} {chunk : List UInt8} (h : Delivers n l chunk l')
    : Waited l l' := by
  refine ⟨chunk.length, h.rest, ?_⟩
  rw [h.now]
  exact due_le (Nat.le_refl _) h.arrived

-- By a clock that counts so many nanoseconds at a time, no wait goes on behind the deadline, and neither
-- does a result that is none of failure rest on a byte that has come behind it.
structure Punctual (tick deadline : Nat) (before : Line) (rc : Int) (after : Line) : Prop where
  arrived : 0 ≤ rc →
    ∀ arrival ∈ before.incoming.take (before.incoming.length - after.incoming.length),
      arrival.time / tick ≤ deadline
  waited : after.now / tick ≤ deadline

theorem punctual_iff {before after : Line} (h : Waited before after) (tick deadline : Nat) (rc : Int)
    : Punctual tick deadline before rc after ↔ after.now / tick ≤ deadline := by
  constructor
  . exact Punctual.waited
  . intro hwaited
    refine ⟨?_, hwaited⟩
    intro _ arrival hmem
    obtain ⟨k, hdrop, hdue⟩ := h
    have hmem' : arrival ∈ before.incoming.take k := by
      rw [hdrop, List.length_drop] at hmem
      have hle : before.incoming.length - (before.incoming.length - k) ≤ k := by
        omega
      exact (List.take_prefix_take_left hle).subset hmem
    have htime := time_le_due before.now hmem'
    exact Nat.le_trans (Nat.div_le_div_right (Nat.le_trans htime hdue)) hwaited

end Line

end Posix
