import ModbusProtocol.Tcp.Impl.Thread

/-!
This module contains which descriptors an iteration of the server thread acts on.
-/

namespace Tcp

-- What is done in an iteration follows from what its `select` has reported: a client is accepted and
-- processed only when its descriptor is ready, and a failed `select` leaves every client alone.
structure ActsOnReady (ctx : TransportCtx) (env : Environment) : Prop where
  accept : .accept ∈ (iteration ctx env).2 →
    ∃ fds, env.select = .ready fds ∧ ctx.listenSock ∈ fds
  process : ∀ sd, .process sd ∈ (iteration ctx env).2 →
    ∃ fds, env.select = .ready fds ∧ sd ∈ fds
  failed : ∀ errno, env.select = .failed errno → iteration ctx env = (ctx, [])

theorem exists_of_mem_forSlots {visit : Nat → Int → Int × List ThreadEvent} {i : Nat}
    {fds : List Int} {event : ThreadEvent} (h : event ∈ (forSlots visit i fds).2)
    : ∃ i, ∃ sd ∈ fds, event ∈ (visit i sd).2 := by
  induction fds generalizing i with
  | nil => contradiction
  | cons sd fds ih =>
    unfold forSlots at h
    rw [List.mem_append] at h
    cases h with
    | inl h => exact ⟨i, sd, by simp, h⟩
    | inr h =>
      obtain ⟨j, sd', hmem, hevent⟩ := ih h
      exact ⟨j, sd', by simp [hmem], hevent⟩

-- The events in which the thread turns to a descriptor that may not be ready.
def ThreadEvent.Blocks : ThreadEvent → Prop
  | .accept | .process _ => True
  | _ => False

theorem not_blocks_closeClient {cfg : TransportConfig} {sd : Int} {event : ThreadEvent}
    (h : event ∈ closeClient cfg sd)
    : ¬event.Blocks := by
  unfold closeClient linkCall errorCall at h
  intro hblocks
  cases event with
  | accept => simp at h
  | process fd => simp at h
  | _ => exact hblocks

theorem not_blocks_checkIdle {cfg : TransportConfig} {env : Environment} {i : Nat} {sd : Int}
    {event : ThreadEvent} (h : event ∈ (checkIdle cfg env i sd).2)
    : ¬event.Blocks := by
  unfold checkIdle at h
  split at h
  . split at h
    . rw [List.mem_append, List.mem_singleton] at h
      cases h with
      | inl h => simp [h, ThreadEvent.Blocks]
      | inr h => apply not_blocks_closeClient h
    . rw [List.mem_singleton] at h
      simp [h, ThreadEvent.Blocks]
  . contradiction

theorem processClient_acts {cfg : TransportConfig} {env : Environment} {readfds : List Int} {i : Nat}
    {sd : Int} {event : ThreadEvent} (h : event ∈ (processClient cfg env readfds i sd).2)
    (hblocks : event.Blocks)
    : event = .process sd ∧ sd ∈ readfds := by
  unfold processClient at h
  split at h
  . next hready =>
    split at h
    . split at h
      . rw [List.mem_append, List.mem_singleton] at h
        cases h with
        | inl h => exact ⟨h, hready.2⟩
        | inr h => exact absurd hblocks (not_blocks_closeClient h)
      . rw [List.mem_singleton] at h
        exact ⟨h, hready.2⟩
    . contradiction
  . contradiction

theorem acceptClient_acts {cfg : TransportConfig} {env : Environment} {fds : List Int}
    {event : ThreadEvent} (h : event ∈ (acceptClient cfg env fds).2) (hblocks : event.Blocks)
    : event = .accept := by
  unfold acceptClient linkCall errorCall at h
  cases event with
  | accept => rfl
  | process fd => grind
  | _ => contradiction

theorem accept_mem_acceptClient (cfg : TransportConfig) (env : Environment) (fds : List Int)
    : .accept ∈ (acceptClient cfg env fds).2 := by
  unfold acceptClient
  dsimp only
  split
  . simp
  . split
    . simp
    . split
      . simp
      . simp

-- What an iteration may turn to once `select` has left it with `readfds`.
theorem iteration_acts {ctx : TransportCtx} {env : Environment} {event : ThreadEvent}
    (h : event ∈ (iteration ctx env).2) (hblocks : event.Blocks)
    : ¬((env.select.result (fdSet ctx)).1 < 0 ∧ env.select.errno ≠ eintr) ∧
      (env.select.result (fdSet ctx)).1 ≠ 0 ∧
      (event = .accept ∧ ctx.listenSock ∈ (env.select.result (fdSet ctx)).2 ∨
        ∃ sd, event = .process sd ∧ sd ∈ (env.select.result (fdSet ctx)).2) := by
  unfold iteration at h
  dsimp only at h
  generalize env.select.result (fdSet ctx) = result at h
  split at h
  . contradiction
  . next hgo =>
    split at h
    . obtain ⟨i, sd, -, hidle⟩ := exists_of_mem_forSlots h
      exact absurd hblocks (not_blocks_checkIdle hidle)
    . next hactive =>
      refine ⟨hgo, hactive, ?_⟩
      have hprocess : ∀ fds, event ∈ (forSlots (processClient ctx.cfg env result.2) 0 fds).2
          → ∃ sd, event = .process sd ∧ sd ∈ result.2 := by
        intro fds hmem
        obtain ⟨i, sd, -, hevent⟩ := exists_of_mem_forSlots hmem
        exact ⟨sd, processClient_acts hevent hblocks⟩
      by_cases hlisten : ctx.listenSock ≥ 0 ∧ ctx.listenSock ∈ result.2
      . rw [if_pos hlisten] at h
        have haccept := @acceptClient_acts ctx.cfg env ctx.clientFds event
        generalize acceptClient ctx.cfg env ctx.clientFds = accepted at h haccept
        obtain ⟨fds, events⟩ := accepted
        cases fds with
        | none => exact .inl ⟨haccept h hblocks, hlisten.2⟩
        | some fds =>
          dsimp only at h
          rw [List.mem_append] at h
          cases h with
          | inl h => exact .inl ⟨haccept h hblocks, hlisten.2⟩
          | inr h => exact .inr (hprocess fds h)
      . rw [if_neg hlisten] at h
        dsimp only at h
        rw [List.nil_append] at h
        exact .inr (hprocess ctx.clientFds h)

theorem iteration_failed {ctx : TransportCtx} {env : Environment} {errno : Nat}
    (hselect : env.select = .failed errno) (herrno : errno ≠ eintr)
    : iteration ctx env = (ctx, []) := by
  unfold iteration
  rw [hselect]
  apply if_pos
  exact ⟨Int.negSucc_lt_zero 0, herrno⟩

-- The set of an interrupted `select` is still the one it was handed, which has the listening socket in it.
theorem accept_mem_of_interrupted {ctx : TransportCtx} {env : Environment}
    (hlisten : 0 ≤ ctx.listenSock) (hselect : env.select = .failed eintr)
    : .accept ∈ (iteration ctx env).2 := by
  have haccept := accept_mem_acceptClient ctx.cfg env ctx.clientFds
  have hlisten : ctx.listenSock ≥ 0 ∧ ctx.listenSock ∈ fdSet ctx := ⟨hlisten, by simp [fdSet]⟩
  unfold iteration
  rw [hselect]
  simp only [Select.result, Select.errno, ne_eq, not_true, and_false, ite_false, hlisten, and_self,
    ite_true, reduceCtorEq, Int.reduceNeg]
  generalize acceptClient ctx.cfg env ctx.clientFds = accepted at haccept
  obtain ⟨fds, events⟩ := accepted
  cases fds with
  | none => exact haccept
  | some fds =>
    rw [List.mem_append]
    exact .inl haccept

theorem ready_of_acts {select : Select} {readfds : List Int} {fd : Int}
    (hgo : ¬((select.result readfds).1 < 0 ∧ select.errno ≠ eintr))
    (hactive : (select.result readfds).1 ≠ 0) (hmem : fd ∈ (select.result readfds).2)
    (hnot : select ≠ .failed eintr)
    : ∃ fds, select = .ready fds ∧ fd ∈ fds := by
  cases select with
  | ready fds =>
    refine ⟨fds, rfl, ?_⟩
    dsimp only [Select.result] at hmem
    rw [List.mem_filter, decide_eq_true_iff] at hmem
    exact hmem.2
  | timeout => exact absurd rfl hactive
  | failed errno =>
    dsimp only [Select.result, Select.errno] at hgo
    simp_all

-- An iteration keeps to what its `select` has reported exactly when that has not been interrupted.
theorem actsOnReady_iff (ctx : TransportCtx) (env : Environment) (hlisten : 0 ≤ ctx.listenSock)
    : ActsOnReady ctx env ↔ env.select ≠ .failed eintr := by
  constructor
  . intro hacts hselect
    have hfailed := hacts.failed eintr hselect
    have haccept := accept_mem_of_interrupted hlisten hselect
    rw [hfailed] at haccept
    contradiction
  . intro hselect
    constructor
    . intro haccept
      obtain ⟨hgo, hactive, ⟨-, hmem⟩ | ⟨sd, hevent, -⟩⟩ := iteration_acts haccept trivial
      . apply ready_of_acts hgo hactive hmem hselect
      . contradiction
    . intro sd hprocess
      obtain ⟨hgo, hactive, ⟨hevent, -⟩ | ⟨sd', hevent, hmem⟩⟩ := iteration_acts hprocess trivial
      . contradiction
      . injection hevent with hsd
        subst hsd
        apply ready_of_acts hgo hactive hmem hselect
    . intro errno hfailed
      apply iteration_failed hfailed
      intro herrno
      rw [herrno] at hfailed
      exact hselect hfailed

-- A connected client that sends nothing, and a signal that interrupts the wait: no connection is pending
-- for the first and one is for the second, then the client is read from and closed.
def idleCtx : TransportCtx :=
  ⟨⟨true, true, false⟩, 3, [5, -1]⟩

def interrupted (accept : Int) : Environment :=
  ⟨.failed eintr, accept, fun _ => -1, fun _ => -1⟩

theorem actsOnReady_idle
    : ActsOnReady idleCtx ⟨.ready [5], -1, fun _ => -1, fun _ => 0⟩ := by
  rw [actsOnReady_iff idleCtx _ (by decide)]
  decide

theorem not_actsOnReady_interrupted
    : (iteration idleCtx (interrupted (-1))).2 = [.accept] ∧
      (iteration idleCtx (interrupted 6)).2
        = [.accept, .link 6 true, .process 5, .close 5, .link 5 false] ∧
      ¬ActsOnReady idleCtx (interrupted 6) := by
  refine ⟨by decide, by decide, ?_⟩
  intro hacts
  obtain ⟨fds, hselect, -⟩ := hacts.process 5 (by decide)
  contradiction

end Tcp
