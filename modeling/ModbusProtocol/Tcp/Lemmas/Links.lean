import ModbusProtocol.Tcp.Lemmas.Slots

/-!
This module contains the calls of `on_link` over whole runs of a server: what they add up to is the set of
connected clients.
-/

open Posix

namespace Tcp

-- An announcement that a client has connected, and that it is gone.
def ThreadEvent.links : ThreadEvent → List (Ledger.Act Int)
  | .link fd true => [.acquire fd]
  | .link fd false => [.release fd]
  | _ => []

def linksOf (events : List ThreadEvent) : List (Ledger.Act Int) :=
  events.flatMap ThreadEvent.links

theorem links_errorCall (cfg : TransportConfig) (connectionState : Bool)
    : (errorCall cfg connectionState).flatMap ThreadEvent.links = [] := by
  unfold errorCall
  split
  . rfl
  . rfl

theorem links_closeClient {cfg : TransportConfig} (hlink : cfg.onLink = true) (sd : Int)
    : (closeClient cfg sd).flatMap ThreadEvent.links = [.release sd] := by
  unfold closeClient linkCall
  rw [List.flatMap_append, List.flatMap_append, links_errorCall, if_pos hlink]
  rfl

theorem Visiting.links {cfg : TransportConfig} {visit : Nat → Int → Int × List ThreadEvent}
    (h : Visiting cfg visit) (hlink : cfg.onLink = true)
    : Visits id (fun _ => False) ThreadEvent.links visit := by
  have hlinks : ∀ (event : ThreadEvent) sd, (event = .peek sd ∨ event = .process sd)
      → event.links = [] := by
    intro event sd hevent
    cases hevent with
    | inl heq => rw [heq]; rfl
    | inr heq => rw [heq]; rfl
  constructor
  . exact h.free
  . intro i sd held hsd hmem
    obtain heq | ⟨event, hevent, heq | heq⟩ := h.occupied i sd hsd
    . rw [heq]
      trivial
    . rw [heq, List.flatMap_singleton, hlinks event sd hevent]
      trivial
    . rw [heq, List.flatMap_cons, hlinks event sd hevent, links_closeClient hlink]
      exact ⟨hmem, trivial⟩
  . intro i sd held hsd hmem
    obtain heq | ⟨event, hevent, heq | heq⟩ := h.occupied i sd hsd
    . rw [heq]
      exact .inl ⟨rfl, rfl⟩
    . rw [heq, List.flatMap_singleton, hlinks event sd hevent]
      exact .inl ⟨rfl, rfl⟩
    . rw [heq, List.flatMap_cons, hlinks event sd hevent, links_closeClient hlink]
      exact .inr ⟨rfl, rfl⟩

-- A client that is announced has not been announced before: its descriptor is not open yet.
theorem Accepting.links {cfg : TransportConfig} {env : Environment} {fds fds' : List Int}
    {events : List ThreadEvent} {held base : Finset Resource} {up : Finset Int}
    (h : Accepting cfg env.accept fds fds' events) (hlink : cfg.onLink = true)
    (htable : Table .descriptor held base fds)
    (hfresh : Ledger.Fresh Resource.Chosen held (events.flatMap (·.acts env)))
    (hup : Table id up ∅ fds)
    : Ledger.Owned (fun _ => False) up (linksOf events) ∧
      Table id (Ledger.after up (linksOf events)) ∅ fds' := by
  cases h with
  | quiet => exact ⟨trivial, hup⟩
  | failed _ => exact ⟨trivial, hup⟩
  | rejected _ => exact ⟨trivial, hup⟩
  | placed hpos hplace =>
    have hacts : ThreadEvent.acts env .accept = [.acquire (.descriptor env.accept)] := if_pos hpos
    rw [List.flatMap_append, List.flatMap_append, acts_linkCall, acts_errorCall,
      List.flatMap_singleton, hacts] at hfresh
    have hfree : .descriptor env.accept ∉ held := hfresh.1 trivial
    have hnew : id env.accept ∉ up := by
      rw [hup.mem_iff]
      rintro (hmem | ⟨sd, hsd, heq⟩)
      . exact Finset.notMem_empty _ hmem
      . apply hfree
        rw [htable.mem_iff]
        exact .inr ⟨sd, hsd, congrArg Resource.descriptor heq⟩
    have hlinks : linksOf ([.accept] ++ linkCall cfg env.accept true ++ errorCall cfg true)
        = [.acquire env.accept] := by
      unfold linksOf linkCall
      rw [List.flatMap_append, List.flatMap_append, links_errorCall, if_pos hlink]
      rfl
    rw [hlinks]
    refine ⟨⟨fun _ => hnew, trivial⟩, ?_⟩
    apply hup.place hpos hnew hplace

theorem linksOf_append (events events' : List ThreadEvent)
    : linksOf (events ++ events') = linksOf events ++ linksOf events' := by
  apply List.flatMap_append

theorem iteration_links {ctx : TransportCtx} {env : Environment} {held base : Finset Resource}
    {up : Finset Int} (hlink : ctx.cfg.onLink = true)
    (htable : Table .descriptor held base ctx.clientFds)
    (hfresh : Ledger.Fresh Resource.Chosen held (iterationActs ctx env))
    (hup : Table id up ∅ ctx.clientFds)
    : Ledger.Owned (fun _ => False) up (linksOf (iteration ctx env).2) ∧
      Table id (Ledger.after up (linksOf (iteration ctx env).2)) ∅
        (iteration ctx env).1.clientFds := by
  obtain ⟨fds, events, visit, haccepting, hvisiting, heq⟩ := iteration_accepting ctx env
  rw [iterationActs_eq heq, Ledger.fresh_append, Ledger.fresh_append, Ledger.after_uses] at hfresh
  obtain ⟨howned, hplaced⟩ := haccepting.links hlink htable hfresh.2.1 hup
  obtain ⟨hvisit, hvisited⟩ := (hvisiting.links hlink).forSlots hplaced 0
  rw [heq]
  dsimp only
  rw [linksOf_append, Ledger.owned_append, Ledger.after_append]
  exact ⟨⟨howned, hvisit⟩, hvisited⟩

theorem serverThread_links {ctx : TransportCtx} {envs : List Environment}
    {held base : Finset Resource} {up : Finset Int} (hlink : ctx.cfg.onLink = true)
    (htable : Table .descriptor held base ctx.clientFds)
    (hlisten : .descriptor ctx.listenSock ∈ base)
    (hfresh : Ledger.Fresh Resource.Chosen held (serverThread ctx envs).2.2)
    (hup : Table id up ∅ ctx.clientFds)
    : Ledger.Owned (fun _ => False) up (linksOf (serverThread ctx envs).2.1) ∧
      Table id (Ledger.after up (linksOf (serverThread ctx envs).2.1)) ∅
        (serverThread ctx envs).1.clientFds := by
  induction envs generalizing ctx held up with
  | nil => exact ⟨trivial, hup⟩
  | cons env envs ih =>
    unfold serverThread at hfresh ⊢
    dsimp only at hfresh ⊢
    rw [Ledger.fresh_append] at hfresh
    rw [linksOf_append, Ledger.owned_append, Ledger.after_append]
    obtain ⟨-, hnext⟩ := iteration_table htable hlisten hfresh.1
    obtain ⟨howned, hlinked⟩ := iteration_links hlink htable hfresh.1 hup
    obtain ⟨hsame, hcfg, -⟩ := iteration_keeps ctx env
    rw [← hcfg] at hlink
    rw [← hsame] at hlisten
    obtain ⟨hlater, hlast⟩ := ih hlink hnext hlisten hfresh.2 hlinked
    exact ⟨⟨howned, hlater⟩, hlast⟩

-- The events of a server up to the end of these iterations.
def runEvents (env : StartEnv) (owner : Owner) (ctx : Ctx) (cfg : Config) (envs : List Environment)
    : List ThreadEvent :=
  (serverThread (start env owner ctx cfg).2.1.transport envs).2.1

-- The announcements agree with the slots after any number of iterations, and once the server has been
-- stopped every client has been announced to be gone.
structure BalancesLinks (env : StartEnv) (owner : Owner) (ctx : Ctx) (cfg : Config)
    (envs : List Environment) : Prop where
  -- no client is announced twice, nor one to be gone that is not announced
  owned : ∀ n, Ledger.Owned (fun _ => False) ∅
    (linksOf (runEvents env owner ctx cfg (envs.take n)))
  running : ∀ n, Ledger.after ∅ (linksOf (runEvents env owner ctx cfg (envs.take n)))
    = (clients env owner ctx cfg (envs.take n)).toFinset
  balance : ∀ n, (linksOf (runEvents env owner ctx cfg (envs.take n))).countP Ledger.Act.isAcquire
    = (linksOf (runEvents env owner ctx cfg (envs.take n))).countP Ledger.Act.isRelease +
        (clients env owner ctx cfg (envs.take n)).length
  stopped : Ledger.after ∅ (linksOf (runEvents env owner ctx cfg envs ++
    (stop owner (served env owner ctx cfg envs)).events)) = ∅

theorem serverThread_append (ctx : TransportCtx) (envs envs' : List Environment)
    : (serverThread ctx (envs ++ envs')).2.2
        =
      (serverThread ctx envs).2.2 ++ (serverThread (serverThread ctx envs).1 envs').2.2 := by
  induction envs generalizing ctx with
  | nil => rfl
  | cons env envs ih =>
    have hrest := ih (iteration ctx env).1
    change iterationActs ctx env ++ (serverThread (iteration ctx env).1 (envs ++ envs')).2.2 = _
    rw [hrest, ← List.append_assoc]
    rfl

theorem fresh_take {env : StartEnv} {owner : Owner} {ctx : Ctx} {cfg : Config}
    {envs : List Environment}
    (hfresh : Ledger.Fresh Resource.Chosen ∅ (runActs env owner ctx cfg envs)) (n : Nat)
    : Ledger.Fresh Resource.Chosen ∅ (runActs env owner ctx cfg (envs.take n)) := by
  rw [← List.take_append_drop n envs] at hfresh
  unfold runActs at hfresh ⊢
  rw [serverThread_append, ← List.append_assoc, Ledger.fresh_append] at hfresh
  exact hfresh.1

theorem Table.eq_toFinset {up : Finset Int} {fds : List Int} (h : Table id up ∅ fds)
    : up = (connected fds).toFinset := by
  ext fd
  rw [h.mem_iff, List.mem_toFinset]
  simp

theorem runEvents_links {env : StartEnv} {owner : Owner} {ctx : Ctx} {cfg : Config}
    {envs : List Environment} (hmode : cfg.mode = .listenServer)
    (hstart : (start env owner ctx cfg).1 = 0) (hlink : cfg.callbacks.onLink = true)
    (hfresh : Ledger.Fresh Resource.Chosen ∅ (runActs env owner ctx cfg envs))
    : Ledger.Owned (fun _ => False) ∅ (linksOf (runEvents env owner ctx cfg envs)) ∧
      Table id (Ledger.after ∅ (linksOf (runEvents env owner ctx cfg envs))) ∅
        (slotsOf (served env owner ctx cfg envs)) := by
  obtain ⟨slots, cap, -, heq⟩ := start_listening hmode hstart
  have hthread := @serverThread_links
    (Ctx.transport ⟨cfg, env.socket, -1, some (slots, List.replicate cap.toNat (-1)), cap, true⟩)
    envs _ _ _ hlink (table_replicate (startedWith owner slots env.socket) cap.toNat)
    (by simp [startedWith, Ctx.transport]) (start_fresh heq hfresh) (table_replicate ∅ cap.toNat)
  unfold runEvents served
  rw [heq]
  exact hthread

theorem linksOf_close (fds : List Int)
    : linksOf (fds.map .close) = [] := by
  induction fds with
  | nil => rfl
  | cons fd fds ih => exact ih

theorem linksOf_stop (owner : Owner) (ctx : Ctx)
    : linksOf (stop owner ctx).events = [] := by
  unfold stop
  split
  . rfl
  . apply linksOf_close

-- Clients that are still connected when the server is stopped are not announced to be gone.
theorem links_balance_iff {env : StartEnv} {owner : Owner} {ctx : Ctx} {cfg : Config}
    {envs : List Environment} (hmode : cfg.mode = .listenServer)
    (hstart : (start env owner ctx cfg).1 = 0) (hlink : cfg.callbacks.onLink = true)
    (hfresh : Ledger.Fresh Resource.Chosen ∅ (runActs env owner ctx cfg envs))
    : BalancesLinks env owner ctx cfg envs ↔ clients env owner ctx cfg envs = [] := by
  have hrun := fun n => runEvents_links hmode hstart hlink (fresh_take hfresh n)
  have hstop : linksOf (runEvents env owner ctx cfg envs ++
      (stop owner (served env owner ctx cfg envs)).events)
      = linksOf (runEvents env owner ctx cfg envs) := by
    rw [linksOf_append, linksOf_stop, List.append_nil]
  have hlast := (runEvents_links hmode hstart hlink hfresh).2.eq_toFinset
  constructor
  . intro h
    have hstopped := h.stopped
    rw [hstop, hlast] at hstopped
    exact (List.toFinset_eq_empty_iff _).mp hstopped
  . intro hnil
    constructor
    . intro n
      exact (hrun n).1
    . intro n
      exact (hrun n).2.eq_toFinset
    . intro n
      have hcard := Ledger.card_after
        (@Ledger.fresh_of_not_chosen _ _ (fun _ => False) (fun _ => id) ∅ _) (hrun n).1
      rw [(hrun n).2.eq_toFinset, List.toFinset_card_of_nodup (hrun n).2.nodup,
        Finset.card_empty] at hcard
      unfold clients
      omega
    . rw [hstop, hlast]
      unfold clients at hnil
      rw [hnil]
      rfl

-- The first client is gone when the second one comes, which is gone when the server is stopped.
def goneRun : List Environment :=
  sampleRun.take 2 ++ [⟨.ready [6], -1, fun _ => 0, fun _ => -1⟩]

theorem links_balance_sample
    : linksOf (runEvents sampleEnv (.context 0) sampleCtx sampleListen goneRun)
        = [.acquire 5, .acquire 6, .release 5, .release 6] ∧
      BalancesLinks sampleEnv (.context 0) sampleCtx sampleListen goneRun := by
  constructor
  . decide
  . rw [links_balance_iff]
    . decide
    . rfl
    . decide
    . rfl
    . decide

-- The first client is gone when the server is stopped, the second one is not.
theorem not_balancesLinks_connected
    : clients sampleEnv (.context 0) sampleCtx sampleListen (sampleRun.take 2) = [6] ∧
      linksOf (runEvents sampleEnv (.context 0) sampleCtx sampleListen (sampleRun.take 2))
        = [.acquire 5, .acquire 6, .release 5] ∧
      linksOf (stop (.context 0)
        (served sampleEnv (.context 0) sampleCtx sampleListen (sampleRun.take 2))).events = [] ∧
      ¬BalancesLinks sampleEnv (.context 0) sampleCtx sampleListen (sampleRun.take 2) := by
  refine ⟨by decide, by decide, by decide, ?_⟩
  intro h
  have hstopped := h.stopped
  revert hstopped
  decide

end Tcp
