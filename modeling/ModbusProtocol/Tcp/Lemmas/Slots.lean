import ModbusProtocol.Tcp.Impl.Transport
import ModbusProtocol.Tcp.Lemmas.Serving

/-!
This module contains the invariant of the client slots of a server, over whole runs from start to stop. What
is held for a client need not be its descriptor.
-/

open Posix

namespace Tcp

section Table

variable {α : Type} [DecidableEq α] (name : Int → α)

-- Beside what is in `base` just the clients in the slots are held, each in one slot.
def Table (held : Finset α) : Finset α → List Int → Prop
  | base, [] => held = base
  | base, sd :: fds =>
    if 0 ≤ sd then
      name sd ∉ base ∧ Table held (insert (name sd) base) fds
    else
      Table held base fds

def connected (fds : List Int) : List Int :=
  fds.filter (0 ≤ ·)

variable {name}

theorem table_cons_occupied {held base : Finset α} {sd : Int} {fds : List Int} (hsd : 0 ≤ sd)
    : Table name held base (sd :: fds)
        ↔ name sd ∉ base ∧ Table name held (insert (name sd) base) fds := by
  rw [Table, if_pos hsd]

theorem table_cons_free {held base : Finset α} {sd : Int} {fds : List Int} (hsd : ¬0 ≤ sd)
    : Table name held base (sd :: fds) ↔ Table name held base fds := by
  rw [Table, if_neg hsd]

theorem table_replicate (held : Finset α) (n : Nat)
    : Table name held held (List.replicate n (-1)) := by
  induction n with
  | zero => rfl
  | succ n ih =>
    rw [List.replicate_succ, table_cons_free (by omega)]
    exact ih

theorem connected_cons_occupied {sd : Int} (fds : List Int) (hsd : 0 ≤ sd)
    : connected (sd :: fds) = sd :: connected fds := by
  unfold connected
  rw [List.filter_cons_of_pos (by simpa using hsd)]

theorem connected_cons_free {sd : Int} (fds : List Int) (hsd : ¬0 ≤ sd)
    : connected (sd :: fds) = connected fds := by
  unfold connected
  rw [List.filter_cons_of_neg (by simpa using hsd)]

theorem Table.mem_iff {held base : Finset α} {fds : List Int} (h : Table name held base fds)
    (a : α)
    : a ∈ held ↔ a ∈ base ∨ ∃ sd ∈ connected fds, a = name sd := by
  induction fds generalizing base with
  | nil =>
    have heq : held = base := h
    simp [heq, connected]
  | cons sd fds ih =>
    by_cases hsd : 0 ≤ sd
    . rw [table_cons_occupied hsd] at h
      rw [ih h.2, connected_cons_occupied fds hsd, Finset.mem_insert]
      simp only [List.mem_cons, exists_eq_or_imp]
      rw [or_left_comm, or_assoc]
    . rw [table_cons_free hsd] at h
      rw [ih h, connected_cons_free fds hsd]

theorem Table.apart {held base : Finset α} {fds : List Int} (h : Table name held base fds)
    : ∀ sd ∈ connected fds, name sd ∉ base := by
  induction fds generalizing base with
  | nil => simp [connected]
  | cons sd fds ih =>
    by_cases hsd : 0 ≤ sd
    . rw [table_cons_occupied hsd] at h
      intro sd' hmem
      rw [connected_cons_occupied fds hsd, List.mem_cons] at hmem
      cases hmem with
      | inl heq =>
        rw [heq]
        exact h.1
      | inr hmem =>
        have hnot := ih h.2 sd' hmem
        rw [Finset.mem_insert, not_or] at hnot
        exact hnot.2
    . rw [table_cons_free hsd] at h
      rw [connected_cons_free fds hsd]
      apply ih h

theorem Table.nodup {held base : Finset α} {fds : List Int} (h : Table name held base fds)
    : (connected fds).Nodup := by
  induction fds generalizing base with
  | nil => simp [connected]
  | cons sd fds ih =>
    by_cases hsd : 0 ≤ sd
    . rw [table_cons_occupied hsd] at h
      rw [connected_cons_occupied fds hsd, List.nodup_cons]
      refine ⟨?_, ih h.2⟩
      intro hmem
      exact h.2.apart sd hmem (Finset.mem_insert_self _ _)
    . rw [table_cons_free hsd] at h
      rw [connected_cons_free fds hsd]
      apply ih h

theorem Table.insert {held base : Finset α} {fds : List Int} {a : α} (h : Table name held base fds)
    (ha : a ∉ held)
    : Table name (insert a held) (insert a base) fds := by
  induction fds generalizing base with
  | nil =>
    have heq : held = base := h
    subst heq
    rfl
  | cons sd fds ih =>
    by_cases hsd : 0 ≤ sd
    . rw [table_cons_occupied hsd] at h ⊢
      have hne : name sd ≠ a := by
        intro heq
        apply ha
        rw [← heq, h.2.mem_iff]
        exact .inl (Finset.mem_insert_self _ _)
      rw [Finset.insert_comm]
      refine ⟨?_, ih h.2⟩
      rw [Finset.mem_insert, not_or]
      exact ⟨hne, h.1⟩
    . rw [table_cons_free hsd] at h ⊢
      apply ih h

theorem Table.erase {held base : Finset α} {fds : List Int} {a : α} (h : Table name held base fds)
    (ha : a ∈ base)
    : Table name (held.erase a) (base.erase a) fds := by
  induction fds generalizing base with
  | nil =>
    have heq : held = base := h
    subst heq
    rfl
  | cons sd fds ih =>
    by_cases hsd : 0 ≤ sd
    . rw [table_cons_occupied hsd] at h ⊢
      have hne : name sd ≠ a := by
        intro heq
        rw [heq] at h
        exact h.1 ha
      have hbase := ih h.2 (Finset.mem_insert_of_mem ha)
      rw [Finset.erase_insert_of_ne hne] at hbase
      refine ⟨?_, hbase⟩
      intro hmem
      exact h.1 (Finset.mem_of_mem_erase hmem)
    . rw [table_cons_free hsd] at h ⊢
      apply ih h ha

-- A client that has been given up leaves its slot free.
theorem Table.release {held base : Finset α} {sd : Int} {fds : List Int} (hsd : 0 ≤ sd)
    (h : Table name held base (sd :: fds))
    : Table name (held.erase (name sd)) base fds := by
  rw [table_cons_occupied hsd] at h
  have herase := h.2.erase (Finset.mem_insert_self _ _)
  rw [Finset.erase_insert h.1] at herase
  exact herase

theorem Table.place {held base : Finset α} {newSocket : Int} {fds fds' : List Int}
    (h : Table name held base fds) (hnew : 0 ≤ newSocket) (hfree : name newSocket ∉ held)
    (hplace : place newSocket fds = some fds')
    : Table name (Insert.insert (name newSocket) held) base fds' := by
  induction fds generalizing base fds' with
  | nil => contradiction
  | cons sd fds ih =>
    unfold Tcp.place at hplace
    split at hplace
    . next hneg =>
      injection hplace with hplace
      subst hplace
      rw [table_cons_free (by omega)] at h
      rw [table_cons_occupied hnew]
      refine ⟨?_, h.insert hfree⟩
      intro hmem
      apply hfree
      rw [h.mem_iff]
      exact .inl hmem
    . next hocc =>
      rw [Option.map_eq_some_iff] at hplace
      obtain ⟨rest, hrest, rfl⟩ := hplace
      rw [table_cons_occupied (by omega)] at h ⊢
      exact ⟨h.1, ih h.2 hrest⟩

variable {chosen : α → Prop}

-- What a loop over the slots may do when it comes to a slot: leave it alone, turn to the client in it, or
-- give that up.
structure Visits (name : Int → α) (chosen : α → Prop) (acts : ThreadEvent → List (Ledger.Act α))
    (visit : Nat → Int → Int × List ThreadEvent) : Prop where
  free : ∀ i sd, ¬0 ≤ sd → visit i sd = (sd, [])
  owned : ∀ i sd held, 0 ≤ sd → name sd ∈ held →
    Ledger.Owned chosen held ((visit i sd).2.flatMap acts)
  after : ∀ i sd held, 0 ≤ sd → name sd ∈ held →
    (visit i sd).1 = sd ∧ Ledger.after held ((visit i sd).2.flatMap acts) = held ∨
    (visit i sd).1 = -1 ∧ Ledger.after held ((visit i sd).2.flatMap acts) = held.erase (name sd)

theorem Visits.forSlots {acts : ThreadEvent → List (Ledger.Act α)}
    {visit : Nat → Int → Int × List ThreadEvent} (hvisit : Visits name chosen acts visit)
    {held base : Finset α} {fds : List Int} (h : Table name held base fds) (i : Nat)
    : Ledger.Owned chosen held ((forSlots visit i fds).2.flatMap acts) ∧
      Table name (Ledger.after held ((forSlots visit i fds).2.flatMap acts)) base
        (forSlots visit i fds).1 := by
  induction fds generalizing held base i with
  | nil => exact ⟨trivial, h⟩
  | cons sd fds ih =>
    unfold Tcp.forSlots
    dsimp only
    rw [List.flatMap_append, Ledger.owned_append, Ledger.after_append]
    by_cases hsd : 0 ≤ sd
    . have hmem : name sd ∈ held := by
        rw [h.mem_iff, connected_cons_occupied fds hsd]
        exact .inr ⟨sd, List.mem_cons_self, rfl⟩
      have howned := hvisit.owned i sd held hsd hmem
      obtain ⟨hkept, hafter⟩ | ⟨hgone, hafter⟩ := hvisit.after i sd held hsd hmem
      . rw [hafter, hkept]
        rw [table_cons_occupied hsd] at h ⊢
        obtain ⟨hrest, htable⟩ := ih h.2 (i + 1)
        exact ⟨⟨howned, hrest⟩, h.1, htable⟩
      . rw [hafter, hgone]
        obtain ⟨hrest, htable⟩ := ih (h.release hsd) (i + 1)
        rw [table_cons_free (by omega)]
        exact ⟨⟨howned, hrest⟩, htable⟩
    . rw [hvisit.free i sd hsd]
      rw [table_cons_free hsd] at h ⊢
      obtain ⟨hrest, htable⟩ := ih h (i + 1)
      exact ⟨⟨trivial, hrest⟩, htable⟩

theorem Table.owned_release {held base : Finset α} {fds : List Int} (h : Table name held base fds)
    : Ledger.Owned chosen held ((connected fds).map fun sd => .release (name sd)) ∧
      Ledger.after held ((connected fds).map fun sd => .release (name sd)) = base := by
  induction fds generalizing held base with
  | nil => exact ⟨trivial, h⟩
  | cons sd fds ih =>
    by_cases hsd : 0 ≤ sd
    . have hmem : name sd ∈ held := by
        rw [h.mem_iff, connected_cons_occupied fds hsd]
        exact .inr ⟨sd, List.mem_cons_self, rfl⟩
      obtain ⟨howned, hafter⟩ := ih (h.release hsd)
      rw [connected_cons_occupied fds hsd]
      exact ⟨⟨hmem, howned⟩, hafter⟩
    . rw [table_cons_free hsd] at h
      rw [connected_cons_free fds hsd]
      apply ih h

end Table

-- The shape of what the loops of the server thread do to a slot.
structure Visiting (cfg : TransportConfig) (visit : Nat → Int → Int × List ThreadEvent) : Prop where
  free : ∀ i sd, ¬0 ≤ sd → visit i sd = (sd, [])
  occupied : ∀ i sd, 0 ≤ sd →
    visit i sd = (sd, []) ∨
    ∃ event, (event = .peek sd ∨ event = .process sd) ∧
      (visit i sd = (sd, [event]) ∨ visit i sd = (-1, event :: closeClient cfg sd))

theorem checkIdle_visiting (cfg : TransportConfig) (env : Environment)
    : Visiting cfg (checkIdle cfg env) := by
  constructor
  . intro i sd hsd
    unfold checkIdle
    rw [if_neg hsd]
  . intro i sd hsd
    refine .inr ⟨.peek sd, .inl rfl, ?_⟩
    unfold checkIdle
    rw [if_pos hsd]
    split
    . right
      rfl
    . left
      rfl

theorem processClient_visiting (cfg : TransportConfig) (env : Environment) (readfds : List Int)
    : Visiting cfg (processClient cfg env readfds) := by
  constructor
  . intro i sd hsd
    unfold processClient
    rw [if_neg (fun h => hsd h.1)]
  . intro i sd hsd
    unfold processClient
    split
    . split
      . refine .inr ⟨.process sd, .inr rfl, ?_⟩
        split
        . right
          rfl
        . left
          rfl
      . left
        rfl
    . left
      rfl

theorem keep_visiting (cfg : TransportConfig)
    : Visiting cfg fun _ sd => (sd, []) := by
  constructor
  . intro i sd _
    rfl
  . intro i sd _
    left
    rfl

theorem forSlots_keep (i : Nat) (fds : List Int)
    : forSlots (fun _ sd => (sd, [])) i fds = (fds, []) := by
  induction fds generalizing i with
  | nil => rfl
  | cons sd fds ih =>
    unfold forSlots
    rw [ih]
    rfl

-- What becomes of a connection that is pending, if there is one.
inductive Accepting (cfg : TransportConfig) (newSocket : Int) (fds : List Int)
    : List Int → List ThreadEvent → Prop where
  | quiet : Accepting cfg newSocket fds fds []
  | failed : newSocket < 0 → Accepting cfg newSocket fds fds [.accept]
  | rejected : 0 ≤ newSocket → Accepting cfg newSocket fds fds [.accept, .close newSocket]
  | placed {fds' : List Int} : 0 ≤ newSocket → place newSocket fds = some fds' →
      Accepting cfg newSocket fds fds'
        ([.accept] ++ linkCall cfg newSocket true ++ errorCall cfg true)

theorem acceptClient_accepting (cfg : TransportConfig) (env : Environment) (fds : List Int)
    : Accepting cfg env.accept fds ((acceptClient cfg env fds).1.getD fds)
        (acceptClient cfg env fds).2 := by
  unfold acceptClient
  dsimp only
  split
  . next hneg => exact .failed hneg
  . next hpos =>
    split
    . exact .rejected (by omega)
    . split
      . exact .rejected (by omega)
      . next hplace => exact .placed (by omega) hplace

-- How the slots and the events of an iteration come about.
theorem iteration_accepting (ctx : TransportCtx) (env : Environment)
    : ∃ fds events visit, Accepting ctx.cfg env.accept ctx.clientFds fds events ∧
        Visiting ctx.cfg visit ∧
        iteration ctx env = ({ ctx with clientFds := (forSlots visit 0 fds).1 },
          events ++ (forSlots visit 0 fds).2) := by
  have haccepting := acceptClient_accepting ctx.cfg env ctx.clientFds
  unfold iteration
  dsimp only
  generalize env.select.result (fdSet ctx) = result
  split
  . refine ⟨ctx.clientFds, [], _, .quiet, keep_visiting ctx.cfg, ?_⟩
    rw [forSlots_keep]
    rfl
  . split
    . exact ⟨ctx.clientFds, [], _, .quiet, checkIdle_visiting ctx.cfg env, rfl⟩
    . split
      . next hnone =>
        split at hnone
        . next hpending =>
          rw [hnone] at haccepting
          refine ⟨ctx.clientFds, _, _, haccepting, keep_visiting ctx.cfg, ?_⟩
          rw [if_pos hpending, forSlots_keep, List.append_nil]
        . contradiction
      . next fds hsome =>
        split at hsome
        . next hpending =>
          rw [hsome] at haccepting
          rw [if_pos hpending]
          exact ⟨fds, _, _, haccepting, processClient_visiting ctx.cfg env result.2, rfl⟩
        . next hquiet =>
          injection hsome with hsome
          subst hsome
          rw [if_neg hquiet]
          exact ⟨ctx.clientFds, [], _, .quiet, processClient_visiting ctx.cfg env result.2, rfl⟩

theorem acts_linkCall (cfg : TransportConfig) (env : Environment) (fd : Int) (isConnected : Bool)
    : (linkCall cfg fd isConnected).flatMap (·.acts env) = [] := by
  unfold linkCall
  split
  . rfl
  . rfl

theorem acts_errorCall (cfg : TransportConfig) (env : Environment) (connectionState : Bool)
    : (errorCall cfg connectionState).flatMap (·.acts env) = [] := by
  unfold errorCall
  split
  . rfl
  . rfl

theorem acts_closeClient (cfg : TransportConfig) (env : Environment) (sd : Int)
    : (closeClient cfg sd).flatMap (·.acts env) = [.release (.descriptor sd)] := by
  unfold closeClient
  rw [List.flatMap_append, List.flatMap_append, acts_linkCall, acts_errorCall]
  rfl

theorem Visiting.descriptors {cfg : TransportConfig} {visit : Nat → Int → Int × List ThreadEvent}
    (h : Visiting cfg visit) (env : Environment)
    : Visits Resource.descriptor Resource.Chosen (·.acts env) visit := by
  have hacts : ∀ (event : ThreadEvent) sd, (event = .peek sd ∨ event = .process sd)
      → event.acts env = [.use (.descriptor sd)] := by
    intro event sd hevent
    cases hevent with
    | inl heq => rw [heq]; rfl
    | inr heq => rw [heq]; rfl
  constructor
  . exact h.free
  . intro i sd held hsd hmem
    obtain heq | ⟨event, hevent, heq | heq⟩ := h.occupied i sd hsd
    . rw [heq]
      trivial
    . rw [heq, List.flatMap_singleton, hacts event sd hevent]
      exact ⟨hmem, trivial⟩
    . rw [heq, List.flatMap_cons, hacts event sd hevent, acts_closeClient]
      exact ⟨hmem, hmem, trivial⟩
  . intro i sd held hsd hmem
    obtain heq | ⟨event, hevent, heq | heq⟩ := h.occupied i sd hsd
    . rw [heq]
      exact .inl ⟨rfl, rfl⟩
    . rw [heq, List.flatMap_singleton, hacts event sd hevent]
      exact .inl ⟨rfl, rfl⟩
    . rw [heq, List.flatMap_cons, hacts event sd hevent, acts_closeClient]
      exact .inr ⟨rfl, rfl⟩

theorem Accepting.descriptors {cfg : TransportConfig} {env : Environment} {fds fds' : List Int}
    {events : List ThreadEvent} {held base : Finset Resource}
    (h : Accepting cfg env.accept fds fds' events) (htable : Table .descriptor held base fds)
    (hfresh : Ledger.Fresh Resource.Chosen held (events.flatMap (·.acts env)))
    : Ledger.Owned Resource.Chosen held (events.flatMap (·.acts env)) ∧
      Table .descriptor (Ledger.after held (events.flatMap (·.acts env))) base fds' := by
  cases h with
  | quiet => exact ⟨trivial, htable⟩
  | failed hneg =>
    have hacts : ThreadEvent.acts env .accept = [] := if_neg (by omega)
    rw [List.flatMap_singleton, hacts]
    exact ⟨trivial, htable⟩
  | rejected hpos =>
    have hacts : ThreadEvent.acts env .accept = [.acquire (.descriptor env.accept)] := if_pos hpos
    rw [List.flatMap_cons, List.flatMap_singleton, hacts] at hfresh ⊢
    have hfree : .descriptor env.accept ∉ held := hfresh.1 trivial
    refine ⟨⟨fun hchosen => absurd trivial hchosen, Finset.mem_insert_self _ _, trivial⟩, ?_⟩
    dsimp only [List.cons_append, List.nil_append, ThreadEvent.acts, Ledger.after,
      Ledger.Act.after]
    rw [Finset.erase_insert hfree]
    exact htable
  | placed hpos hplace =>
    have hacts : ThreadEvent.acts env .accept = [.acquire (.descriptor env.accept)] := if_pos hpos
    rw [List.flatMap_append, List.flatMap_append, acts_linkCall, acts_errorCall,
      List.flatMap_singleton, hacts] at hfresh ⊢
    have hfree : .descriptor env.accept ∉ held := hfresh.1 trivial
    refine ⟨⟨fun hchosen => absurd trivial hchosen, trivial⟩, ?_⟩
    apply htable.place hpos hfree hplace

theorem iterationActs_eq {ctx next : TransportCtx} {env : Environment}
    {accepted visited : List ThreadEvent} (heq : iteration ctx env = (next, accepted ++ visited))
    : iterationActs ctx env
        =
      ((fdSet ctx).map Resource.descriptor).map .use ++
        (accepted.flatMap (·.acts env) ++ visited.flatMap (·.acts env)) := by
  unfold iterationActs
  rw [heq, List.map_map, List.flatMap_append]
  rfl

theorem iteration_table {ctx : TransportCtx} {env : Environment} {held base : Finset Resource}
    (htable : Table .descriptor held base ctx.clientFds)
    (hlisten : .descriptor ctx.listenSock ∈ base)
    (hfresh : Ledger.Fresh Resource.Chosen held (iterationActs ctx env))
    : Ledger.Owned Resource.Chosen held (iterationActs ctx env) ∧
      Table .descriptor (Ledger.after held (iterationActs ctx env)) base
        (iteration ctx env).1.clientFds := by
  obtain ⟨fds, events, visit, haccepting, hvisiting, heq⟩ := iteration_accepting ctx env
  have hselected : ∀ a ∈ (fdSet ctx).map Resource.descriptor, a ∈ held := by
    intro a ha
    obtain ⟨fd, hfd, rfl⟩ := List.mem_map.mp ha
    rw [htable.mem_iff]
    unfold fdSet at hfd
    rw [List.mem_cons] at hfd
    cases hfd with
    | inl hfd =>
      rw [hfd]
      exact .inl hlisten
    | inr hfd => exact .inr ⟨fd, hfd, rfl⟩
  rw [iterationActs_eq heq] at hfresh ⊢
  rw [Ledger.fresh_append, Ledger.fresh_append, Ledger.after_uses] at hfresh
  rw [Ledger.owned_append, Ledger.owned_append, Ledger.after_append, Ledger.after_append,
    Ledger.after_uses]
  obtain ⟨-, hfreshAccept, -⟩ := hfresh
  obtain ⟨howned, htable⟩ := haccepting.descriptors htable hfreshAccept
  obtain ⟨hvisit, htable⟩ := (hvisiting.descriptors env).forSlots htable 0
  rw [heq]
  exact ⟨⟨Ledger.owned_uses Resource.Chosen hselected, howned, hvisit⟩, htable⟩

theorem length_place {newSocket : Int} {fds fds' : List Int} (h : place newSocket fds = some fds')
    : fds'.length = fds.length := by
  induction fds generalizing fds' with
  | nil => contradiction
  | cons sd fds ih =>
    unfold place at h
    split at h
    . injection h with h
      rw [← h]
      rfl
    . rw [Option.map_eq_some_iff] at h
      obtain ⟨rest, hrest, rfl⟩ := h
      rw [List.length_cons, List.length_cons, ih hrest]

theorem length_forSlots (visit : Nat → Int → Int × List ThreadEvent) (i : Nat) (fds : List Int)
    : (forSlots visit i fds).1.length = fds.length := by
  induction fds generalizing i with
  | nil => rfl
  | cons sd fds ih =>
    unfold forSlots
    rw [List.length_cons, List.length_cons, ih]

theorem iteration_keeps (ctx : TransportCtx) (env : Environment)
    : (iteration ctx env).1.listenSock = ctx.listenSock ∧ (iteration ctx env).1.cfg = ctx.cfg ∧
      (iteration ctx env).1.clientFds.length = ctx.clientFds.length := by
  obtain ⟨fds, events, visit, haccepting, -, heq⟩ := iteration_accepting ctx env
  rw [heq]
  refine ⟨rfl, rfl, ?_⟩
  rw [length_forSlots]
  cases haccepting with
  | placed _ hplace => apply length_place hplace
  | _ => rfl

theorem serverThread_keeps (ctx : TransportCtx) (envs : List Environment)
    : (serverThread ctx envs).1.listenSock = ctx.listenSock ∧
      (serverThread ctx envs).1.clientFds.length = ctx.clientFds.length := by
  induction envs generalizing ctx with
  | nil => exact ⟨rfl, rfl⟩
  | cons env envs ih =>
    obtain ⟨hlisten, -, hlen⟩ := iteration_keeps ctx env
    obtain ⟨hlisten', hlen'⟩ := ih (iteration ctx env).1
    exact ⟨hlisten'.trans hlisten, hlen'.trans hlen⟩

theorem serverThread_table {ctx : TransportCtx} {envs : List Environment}
    {held base : Finset Resource} (htable : Table .descriptor held base ctx.clientFds)
    (hlisten : .descriptor ctx.listenSock ∈ base)
    (hfresh : Ledger.Fresh Resource.Chosen held (serverThread ctx envs).2.2)
    : Ledger.Owned Resource.Chosen held (serverThread ctx envs).2.2 ∧
      Table .descriptor (Ledger.after held (serverThread ctx envs).2.2) base
        (serverThread ctx envs).1.clientFds := by
  induction envs generalizing ctx held with
  | nil => exact ⟨trivial, htable⟩
  | cons env envs ih =>
    unfold serverThread at hfresh ⊢
    dsimp only at hfresh ⊢
    rw [Ledger.fresh_append] at hfresh
    rw [Ledger.owned_append, Ledger.after_append]
    obtain ⟨howned, hnext⟩ := iteration_table htable hlisten hfresh.1
    have hsame := (iteration_keeps ctx env).1
    obtain ⟨hrest, hlast⟩ := ih hnext (by rw [hsame]; exact hlisten) hfresh.2
    exact ⟨⟨howned, hrest⟩, hlast⟩

theorem listenInit_listening {env : StartEnv} {ctx : Ctx} (h : (listenInit env ctx).1 = true)
    : 0 ≤ env.socket ∧
      listenInit env ctx
        = (true, { ctx with listenSock := env.socket }, [.acquire (.descriptor env.socket)]) := by
  unfold listenInit at h ⊢
  dsimp only at h ⊢
  split at h
  . contradiction
  . next hsocket =>
    rw [if_neg hsocket]
    split at h
    . contradiction
    . next hcalls =>
      rw [if_neg hcalls]
      exact ⟨by omega, rfl⟩

theorem start_listening {env : StartEnv} {owner : Owner} {ctx : Ctx} {cfg : Config}
    (hmode : cfg.mode = .listenServer) (hstart : (start env owner ctx cfg).1 = 0)
    : ∃ slots cap, 0 ≤ env.socket ∧
        (start env owner ctx cfg).2 =
          (⟨cfg, env.socket, -1, some (slots, List.replicate cap.toNat (-1)), cap, true⟩,
            [.acquire (.memory slots), .acquire (.mutex owner), .acquire (.descriptor env.socket),
              .acquire (.thread owner)]) := by
  unfold start at hstart ⊢
  rw [if_neg (by simp [hmode])] at hstart ⊢
  split at hstart
  . contradiction
  . next hinit =>
    rw [if_neg hinit]
    unfold allocateSlots at hstart ⊢
    simp only [hmode] at hstart ⊢
    cases hmalloc : env.malloc with
    | none => simp [hmalloc] at hstart
    | some slots =>
      simp only [hmalloc] at hstart ⊢
      generalize (if cfg.maxClients ≠ 0 then cfg.maxClients else defaultMaxClients) = cap at hstart ⊢
      split at hstart
      . contradiction
      . next hmutex =>
        rw [if_neg hmutex]
        unfold startThread at hstart ⊢
        simp only [hmode] at hstart ⊢
        split at hstart
        . next hthread =>
          rw [if_pos hthread]
          obtain ⟨hsocket, hlisten⟩ := listenInit_listening hthread.1
          rw [hlisten]
          exact ⟨slots, cap, hsocket, rfl⟩
        . contradiction

-- A server that has been started and has gone through these iterations, and what it has done so far.
def served (env : StartEnv) (owner : Owner) (ctx : Ctx) (cfg : Config) (envs : List Environment)
    : Ctx :=
  (start env owner ctx cfg).2.1.serve envs

def runActs (env : StartEnv) (owner : Owner) (ctx : Ctx) (cfg : Config) (envs : List Environment)
    : List Act :=
  (start env owner ctx cfg).2.2 ++
    (serverThread (start env owner ctx cfg).2.1.transport envs).2.2

def clients (env : StartEnv) (owner : Owner) (ctx : Ctx) (cfg : Config) (envs : List Environment)
    : List Int :=
  connected (slotsOf (served env owner ctx cfg envs))

-- What holds of the slots after any number of iterations, and once the server has then been stopped.
structure KeepsTable (env : StartEnv) (owner : Owner) (ctx : Ctx) (cfg : Config)
    (envs : List Environment) : Prop where
  distinct : (clients env owner ctx cfg envs).Nodup
  bounded : (clients env owner ctx cfg envs).length
    ≤ (served env owner ctx cfg envs).clientCap.toNat
  isOpen : ∀ fd ∈ clients env owner ctx cfg envs,
    .descriptor fd ∈ Ledger.after ∅ (runActs env owner ctx cfg envs)
  -- no descriptor is used or closed that is not open
  owned : Ledger.Owned Resource.Chosen ∅ (runActs env owner ctx cfg envs)
  once : ∀ fd, fd ≠ (served env owner ctx cfg envs).listenSock →
    (runActs env owner ctx cfg envs).count (.release (.descriptor fd)) +
        (if fd ∈ clients env owner ctx cfg envs then 1 else 0)
      = (runActs env owner ctx cfg envs).count (.acquire (.descriptor fd))
  stopped : Ledger.Owned Resource.Chosen ∅
    (runActs env owner ctx cfg envs ++ (stop owner (served env owner ctx cfg envs)).acts)
  released : ∀ resource,
    (runActs env owner ctx cfg envs ++ (stop owner (served env owner ctx cfg envs)).acts).count
        (.release resource)
      = (runActs env owner ctx cfg envs ++ (stop owner (served env owner ctx cfg envs)).acts).count
        (.acquire resource)

def startedWith (owner : Owner) (slots : Nat) (listenSock : Int) : Finset Resource :=
  {.thread owner, .descriptor listenSock, .mutex owner, .memory slots}

theorem start_fresh {env : StartEnv} {owner : Owner} {ctx started : Ctx} {cfg : Config}
    {envs : List Environment} {slots : Nat}
    (heq : (start env owner ctx cfg).2
      = (started, [.acquire (.memory slots), .acquire (.mutex owner),
          .acquire (.descriptor env.socket), .acquire (.thread owner)]))
    (hfresh : Ledger.Fresh Resource.Chosen ∅ (runActs env owner ctx cfg envs))
    : Ledger.Fresh Resource.Chosen (startedWith owner slots env.socket)
        (serverThread started.transport envs).2.2 := by
  unfold runActs at hfresh
  rw [heq, Ledger.fresh_append] at hfresh
  exact hfresh.2

theorem served_table {env : StartEnv} {owner : Owner} {ctx : Ctx} {cfg : Config}
    {envs : List Environment} (hmode : cfg.mode = .listenServer)
    (hstart : (start env owner ctx cfg).1 = 0)
    (hfresh : Ledger.Fresh Resource.Chosen ∅ (runActs env owner ctx cfg envs))
    : ∃ slots cap fds,
        served env owner ctx cfg envs = ⟨cfg, env.socket, -1, some (slots, fds), cap, true⟩ ∧
        0 ≤ env.socket ∧ fds.length = cap.toNat ∧
        Ledger.Owned Resource.Chosen ∅ (runActs env owner ctx cfg envs) ∧
        Table .descriptor (Ledger.after ∅ (runActs env owner ctx cfg envs))
          (startedWith owner slots env.socket) fds := by
  obtain ⟨slots, cap, hsocket, heq⟩ := start_listening hmode hstart
  have hthread := serverThread_table
    (table_replicate (startedWith owner slots env.socket) cap.toNat)
    (by simp [startedWith, Ctx.transport]) (start_fresh heq hfresh)
  have hkeeps := serverThread_keeps
    (Ctx.transport ⟨cfg, env.socket, -1, some (slots, List.replicate cap.toNat (-1)), cap, true⟩) envs
  unfold runActs served
  rw [heq]
  refine ⟨slots, cap, _, rfl, hsocket, ?_, ?_, ?_⟩
  . rw [hkeeps.2]
    exact List.length_replicate
  . rw [Ledger.owned_append]
    refine ⟨?_, hthread.1⟩
    simp [Ledger.Owned, Ledger.Act.Owned, Ledger.Act.after]
  . rw [Ledger.after_append]
    exact hthread.2

theorem stop_acts {owner : Owner} {ctx : Ctx} {slots : Nat} {fds : List Int}
    (hinit : ctx.initialized = true) (hlisten : 0 ≤ ctx.listenSock) (hstream : ctx.streamSock = -1)
    (hfds : ctx.clientFds = some (slots, fds))
    : (stop owner ctx).acts
        =
      .release (.thread owner) :: .release (.descriptor ctx.listenSock) ::
        ((connected fds).map (fun fd => .release (.descriptor fd)) ++
          [.release (.memory slots), .release (.mutex owner)]) := by
  unfold stop slotsOf closeSocket freeSlots connected
  simp [hinit, hlisten, hstream, hfds]

-- Stopping a server gives back everything.
theorem stop_releases {owner : Owner} {ctx : Ctx} {slots : Nat} {fds : List Int}
    {held : Finset Resource} (hinit : ctx.initialized = true) (hlisten : 0 ≤ ctx.listenSock)
    (hstream : ctx.streamSock = -1) (hfds : ctx.clientFds = some (slots, fds))
    (htable : Table .descriptor held (startedWith owner slots ctx.listenSock) fds)
    : Ledger.Owned Resource.Chosen held (stop owner ctx).acts ∧
      Ledger.after held (stop owner ctx).acts = ∅ := by
  have hthread : .thread owner ∈ held := by
    rw [htable.mem_iff]
    simp [startedWith]
  have hsocket : .descriptor ctx.listenSock ∈ held.erase (.thread owner) := by
    rw [Finset.mem_erase, htable.mem_iff]
    simp [startedWith]
  have herase := (htable.erase (a := .thread owner) (by simp [startedWith])).erase
    (a := .descriptor ctx.listenSock) (by simp [startedWith])
  have hbase : ((startedWith owner slots ctx.listenSock).erase (.thread owner)).erase
      (.descriptor ctx.listenSock) = {.mutex owner, .memory slots} := by
    unfold startedWith
    rw [Finset.erase_insert (by simp), Finset.erase_insert (by simp)]
  rw [hbase] at herase
  obtain ⟨howned, hafter⟩ := @Table.owned_release _ _ _ Resource.Chosen _ _ _ herase
  rw [stop_acts hinit hlisten hstream hfds]
  constructor
  . refine ⟨hthread, hsocket, ?_⟩
    rw [Ledger.owned_append]
    refine ⟨howned, ?_⟩
    dsimp only [Ledger.Act.after]
    rw [hafter]
    simp [Ledger.Owned, Ledger.Act.Owned, Ledger.Act.after]
  . unfold Ledger.after
    unfold Ledger.after
    rw [Ledger.after_append]
    dsimp only [Ledger.Act.after]
    rw [hafter]
    unfold Ledger.after
    unfold Ledger.after
    simp [Ledger.Act.after, Ledger.after, Finset.erase_insert_of_ne]

-- The slots of a server hold just the clients that are connected.
theorem slots_table {env : StartEnv} {owner : Owner} {ctx : Ctx} {cfg : Config}
    {envs : List Environment} (hmode : cfg.mode = .listenServer)
    (hstart : (start env owner ctx cfg).1 = 0)
    (hfresh : Ledger.Fresh Resource.Chosen ∅ (runActs env owner ctx cfg envs))
    : KeepsTable env owner ctx cfg envs := by
  obtain ⟨slots, cap, fds, hserved, hsocket, hlen, howned, htable⟩ :=
    served_table hmode hstart hfresh
  have hclients : clients env owner ctx cfg envs = connected fds := by
    unfold clients
    rw [hserved]
    rfl
  have hstop := @stop_releases owner (served env owner ctx cfg envs) slots fds
    (Ledger.after ∅ (runActs env owner ctx cfg envs))
  rw [hserved] at hstop
  obtain ⟨hstopOwned, hstopAfter⟩ := hstop rfl hsocket rfl rfl htable
  have hacts := @stop_acts owner (served env owner ctx cfg envs) slots fds
  rw [hserved] at hacts
  have hstopFresh : Ledger.Fresh Resource.Chosen (Ledger.after ∅ (runActs env owner ctx cfg envs))
      (stop owner (served env owner ctx cfg envs)).acts := by
    rw [hserved, hacts rfl hsocket rfl rfl]
    apply Ledger.fresh_of_no_acquire
    intro act hact
    simp only [List.mem_cons, List.mem_append, List.mem_map, List.not_mem_nil, or_false] at hact
    obtain rfl | rfl | ⟨fd, -, rfl⟩ | rfl | rfl := hact
    all_goals rfl
  constructor
  . rw [hclients]
    apply htable.nodup
  . rw [hclients, hserved, ← hlen]
    apply List.length_filter_le
  . intro fd hfd
    rw [hclients] at hfd
    rw [htable.mem_iff]
    exact .inr ⟨fd, hfd, rfl⟩
  . exact howned
  . intro fd hfd
    have hcount := Ledger.count_release hfresh howned (.descriptor fd)
    rw [hserved] at hfd
    have hmem : .descriptor fd ∈ Ledger.after ∅ (runActs env owner ctx cfg envs)
        ↔ fd ∈ connected fds := by
      rw [htable.mem_iff]
      have hne : fd ≠ env.socket := hfd
      simp [startedWith, hne]
    rw [hclients]
    simp only [hmem] at hcount
    simpa using hcount
  . rw [hserved, Ledger.owned_append]
    exact ⟨howned, hstopOwned⟩
  . intro resource
    have hcount := @Ledger.count_release _ _ Resource.Chosen ∅
      (runActs env owner ctx cfg envs ++ (stop owner (served env owner ctx cfg envs)).acts)
      ((Ledger.fresh_append _ _ _ _).mpr ⟨hfresh, hstopFresh⟩)
      (by rw [hserved, Ledger.owned_append]; exact ⟨howned, hstopOwned⟩) resource
    rw [Ledger.after_append, hserved, hstopAfter] at hcount
    rw [hserved]
    simpa using hcount

-- A server for two clients. The first of them sends a bad request and the second one goes away, others are
-- accepted under the same descriptors in between.
def sampleEnv : StartEnv :=
  ⟨some 4096, true, 3, true, true, true, true⟩

def sampleListen : Config :=
  ⟨.listenServer, "", 502, "", 2, ⟨true, true, false⟩⟩

def sampleCtx : Ctx :=
  ⟨sampleListen, 0, 0, none, 0, false⟩

def sampleRun : List Environment :=
  [⟨.ready [3], 5, fun _ => -1, fun _ => 0⟩, ⟨.ready [3, 5], 6, fun _ => -1, fun _ => -1⟩,
    ⟨.ready [3], 5, fun _ => -1, fun _ => 0⟩, ⟨.ready [3], 7, fun _ => -1, fun _ => 0⟩,
    ⟨.timeout, -1, fun i => if i = 0 then -1 else 0, fun _ => 0⟩]

theorem slots_table_sample
    : KeepsTable sampleEnv (.context 0) sampleCtx sampleListen sampleRun := by
  apply slots_table
  . rfl
  . decide
  . decide +kernel

end Tcp
