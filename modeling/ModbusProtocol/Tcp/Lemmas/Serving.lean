import ModbusProtocol.Tcp.Impl.Thread

/-!
This module contains which clients an iteration of the server thread serves.
-/

namespace Tcp

def processed (events : List ThreadEvent) : List Int :=
  events.filterMap fun event =>
    match event with
    | .process fd => some fd
    | _ => none

theorem processed_append (events events' : List ThreadEvent)
    : processed (events ++ events') = processed events ++ processed events' := by
  apply List.filterMap_append

theorem processed_closeClient (cfg : TransportConfig) (sd : Int)
    : processed (closeClient cfg sd) = [] := by
  unfold closeClient linkCall errorCall
  split
  . split
    . rfl
    . rfl
  . split
    . rfl
    . rfl

theorem processed_checkIdle (cfg : TransportConfig) (env : Environment) (i : Nat) (sd : Int)
    : processed (checkIdle cfg env i sd).2 = [] := by
  unfold checkIdle
  split
  . split
    . rw [processed_append, processed_closeClient]
      rfl
    . rfl
  . rfl

theorem processed_acceptClient (cfg : TransportConfig) (env : Environment) (fds : List Int)
    : processed (acceptClient cfg env fds).2 = [] := by
  unfold acceptClient linkCall errorCall
  grind [processed]

theorem processed_processClient (cfg : TransportConfig) (env : Environment) (readfds : List Int)
    (i : Nat) (sd : Int)
    : processed (processClient cfg env readfds i sd).2
        =
      if cfg.onProcess ∧ 0 ≤ sd ∧ sd ∈ readfds then [sd] else [] := by
  unfold processClient
  by_cases hready : sd ≥ 0 ∧ sd ∈ readfds
  . rw [if_pos hready]
    by_cases hprocess : cfg.onProcess = true
    . have hserves : cfg.onProcess = true ∧ 0 ≤ sd ∧ sd ∈ readfds := ⟨hprocess, hready⟩
      rw [if_pos hprocess, if_pos hserves]
      split
      . rw [processed_append, processed_closeClient]
        rfl
      . rfl
    . rw [if_neg hprocess, if_neg (fun h => hprocess h.1)]
      rfl
  . rw [if_neg hready, if_neg (fun h => hready h.2)]
    rfl

-- A slot gives rise to a call of `on_process` or does not, whichever slot it is.
theorem processed_forSlots {visit : Nat → Int → Int × List ThreadEvent} {serves : Int → Bool}
    (h : ∀ i sd, processed (visit i sd).2 = if serves sd then [sd] else []) (i : Nat) (fds : List Int)
    : processed (forSlots visit i fds).2 = fds.filter serves := by
  induction fds generalizing i with
  | nil => rfl
  | cons sd fds ih =>
    unfold forSlots
    rw [processed_append, h, ih, List.filter_cons]
    split
    . rfl
    . rfl

theorem place_eq_none_iff (newSocket : Int) (fds : List Int)
    : place newSocket fds = none ↔ ∀ sd ∈ fds, 0 ≤ sd := by
  induction fds with
  | nil => simp [place]
  | cons sd fds ih =>
    unfold place
    split
    . next hfree =>
      have hno : ¬0 ≤ sd := by omega
      simp [hno]
    . next hfree =>
      have hocc : 0 ≤ sd := by omega
      simp [ih, hocc]

-- The client that has just been placed is not among those that are served.
theorem filter_place {newSocket : Int} {fds fds' : List Int} {serves : Int → Bool}
    (h : place newSocket fds = some fds') (hnew : serves newSocket = false)
    (hfree : ∀ sd, serves sd = true → 0 ≤ sd)
    : fds'.filter serves = fds.filter serves := by
  induction fds generalizing fds' with
  | nil => contradiction
  | cons sd fds ih =>
    unfold place at h
    split at h
    . next hneg =>
      injection h with h
      subst h
      have hsd : ¬serves sd = true := by
        intro hserves
        have := hfree sd hserves
        omega
      rw [List.filter_cons_of_neg hsd, List.filter_cons_of_neg (by simp [hnew])]
    . rw [Option.map_eq_some_iff] at h
      obtain ⟨rest, hrest, rfl⟩ := h
      rw [List.filter_cons, List.filter_cons, ih hrest]

-- The connection that is pending is not accepted, or given up at once.
def Refused (ctx : TransportCtx) (env : Environment) : Prop :=
  env.accept < 0 ∨ env.accept ≥ fdSetSize ∨ ∀ sd ∈ ctx.clientFds, 0 ≤ sd

instance (ctx : TransportCtx) (env : Environment) : Decidable (Refused ctx env) := by
  unfold Refused
  infer_instance

theorem acceptClient_none_iff (ctx : TransportCtx) (env : Environment)
    : (acceptClient ctx.cfg env ctx.clientFds).1 = none ↔ Refused ctx env := by
  unfold acceptClient Refused
  rw [← place_eq_none_iff env.accept]
  grind

theorem acceptClient_some {cfg : TransportConfig} {env : Environment} {fds fds' : List Int}
    (h : (acceptClient cfg env fds).1 = some fds')
    : place env.accept fds = some fds' := by
  unfold acceptClient at h
  grind

theorem mem_fdSet {ctx : TransportCtx} {sd : Int} (h : sd ∈ ctx.clientFds) (hocc : 0 ≤ sd)
    : sd ∈ fdSet ctx := by
  simp [fdSet, h, hocc]

theorem processed_served (cfg : TransportConfig) (env : Environment) (readfds fds : List Int)
    : processed (forSlots (processClient cfg env readfds) 0 fds).2
        =
      if cfg.onProcess then fds.filter fun sd => 0 ≤ sd ∧ sd ∈ readfds else [] := by
  rw [@processed_forSlots _ fun sd => cfg.onProcess ∧ 0 ≤ sd ∧ sd ∈ readfds]
  . split
    . next hprocess => simp [hprocess]
    . next hprocess => simp [hprocess]
  . intro i sd
    rw [processed_processClient]
    simp

-- A ready client is served unless there is no callback for it or a connection has been refused.
theorem processed_iteration {ctx : TransportCtx} {env : Environment} {fds : List Int}
    (hselect : env.select = .ready fds) (hfresh : env.accept ∉ fdSet ctx)
    : processed (iteration ctx env).2
        =
      if ctx.cfg.onProcess ∧ ¬(0 ≤ ctx.listenSock ∧ ctx.listenSock ∈ fds ∧ Refused ctx env) then
        ctx.clientFds.filter fun sd => 0 ≤ sd ∧ sd ∈ fds
      else
        [] := by
  have hserved : ctx.clientFds.filter (fun sd => 0 ≤ sd ∧ sd ∈ (fdSet ctx).filter (· ∈ fds))
      = ctx.clientFds.filter fun sd => 0 ≤ sd ∧ sd ∈ fds := by
    apply List.filter_congr
    intro sd hsd
    by_cases hocc : 0 ≤ sd
    . simp [hocc, mem_fdSet hsd hocc]
    . simp [hocc]
  have hlisten : ctx.listenSock ∈ (fdSet ctx).filter (· ∈ fds) ↔ ctx.listenSock ∈ fds := by
    simp [fdSet]
  have hnew : env.accept ∉ (fdSet ctx).filter (· ∈ fds) := by
    intro hmem
    exact hfresh (List.mem_of_mem_filter hmem)
  have hresult : env.select.result (fdSet ctx)
      = (↑((fdSet ctx).filter (· ∈ fds)).length, (fdSet ctx).filter (· ∈ fds)) := by
    rw [hselect]
    rfl
  rw [← hserved]
  simp only [← hlisten]
  unfold iteration
  dsimp only
  rw [hresult]
  generalize (fdSet ctx).filter (· ∈ fds) = readfds at hnew ⊢
  split
  . next hfailed => omega
  . split
    . next hquiet =>
      have hnil : readfds = [] := by
        apply List.eq_nil_of_length_eq_zero
        omega
      dsimp only
      rw [@processed_forSlots _ fun _ => false]
      . simp [hnil]
      . intro i sd
        rw [processed_checkIdle]
        rfl
    . by_cases hpending : ctx.listenSock ≥ 0 ∧ ctx.listenSock ∈ readfds
      . have hpending' : 0 ≤ ctx.listenSock ∧ ctx.listenSock ∈ readfds := hpending
        rw [if_pos hpending]
        simp only [← acceptClient_none_iff]
        have hprocessed := processed_acceptClient ctx.cfg env ctx.clientFds
        have hplaced := @acceptClient_some ctx.cfg env ctx.clientFds
        generalize acceptClient ctx.cfg env ctx.clientFds = accepted at hprocessed hplaced
        obtain ⟨slots, events⟩ := accepted
        dsimp only at hprocessed hplaced
        cases slots with
        | none => simp [hprocessed, hpending']
        | some slots =>
          dsimp only
          rw [processed_append, hprocessed, processed_served, List.nil_append]
          have hfree : ∀ sd, decide (0 ≤ sd ∧ sd ∈ readfds) = true → 0 ≤ sd := by
            intro sd hserves
            exact (decide_eq_true_iff.mp hserves).1
          rw [filter_place (hplaced rfl) (by simp [hnew]) hfree]
          simp
      . rw [if_neg hpending]
        dsimp only
        rw [processed_append, processed_served]
        have hno : ¬(0 ≤ ctx.listenSock ∧ ctx.listenSock ∈ readfds ∧ Refused ctx env) :=
          fun h => hpending ⟨h.1, h.2.1⟩
        simp [hno, processed]

theorem serves_ready_iff (ctx : TransportCtx) (env : Environment) {fds : List Int}
    (hselect : env.select = .ready fds) (hfresh : env.accept ∉ fdSet ctx)
    : processed (iteration ctx env).2 = ctx.clientFds.filter (fun sd => 0 ≤ sd ∧ sd ∈ fds)
        ↔ ((∃ sd ∈ ctx.clientFds, 0 ≤ sd ∧ sd ∈ fds) →
            ctx.cfg.onProcess = true ∧
            ¬(0 ≤ ctx.listenSock ∧ ctx.listenSock ∈ fds ∧ Refused ctx env)) := by
  rw [processed_iteration hselect hfresh]
  have hsome : (∃ sd ∈ ctx.clientFds, 0 ≤ sd ∧ sd ∈ fds)
      ↔ ctx.clientFds.filter (fun sd => 0 ≤ sd ∧ sd ∈ fds) ≠ [] := by
    simp [List.filter_eq_nil_iff]
  split
  . next hserves =>
    constructor
    . intro _ _
      exact hserves
    . intro _
      rfl
  . next hserves =>
    constructor
    . intro hnil hready
      exact absurd hnil.symm (hsome.mp hready)
    . intro himp
      by_contra hne
      exact hserves (himp (hsome.mpr fun hnil => hne hnil.symm))

-- Two clients in a table for three, of which the first has sent a request.
def pendingCtx : TransportCtx :=
  ⟨⟨true, true, false⟩, 3, [5, -1, 6]⟩

def pending (accept : Int) : Environment :=
  ⟨.ready [3, 5], accept, fun _ => -1, fun _ => 0⟩

theorem serves_ready_accepted
    : processed (iteration pendingCtx (pending 7)).2 = [5] := by
  apply (serves_ready_iff pendingCtx (pending 7) rfl (by decide)).mpr
  decide

-- accept() fails for lack of descriptors
theorem not_served_refused
    : (iteration pendingCtx (pending (-1))).2 = [.accept] ∧
      processed (iteration pendingCtx (pending (-1))).2
        ≠ pendingCtx.clientFds.filter fun sd => 0 ≤ sd ∧ sd ∈ [3, 5] := by
  decide

end Tcp
