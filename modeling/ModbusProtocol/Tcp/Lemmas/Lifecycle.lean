import Mathlib.Data.Finset.Insert
import ModbusProtocol.Data.Lifecycle
import ModbusProtocol.Tcp.Impl.Client
import ModbusProtocol.Tcp.Lemmas.Slots

/-!
This module contains the lifecycles of a TCP transport, of a TCP server and of a TCP client.
-/

open Posix

namespace Tcp

open Ledger (Lifecycle)

-- Nothing is held afterwards, if nothing has been before.
def GivesBack (acts : List Act) : Prop :=
  Ledger.Fresh Resource.Chosen ∅ acts
    → Ledger.Owned Resource.Chosen ∅ acts ∧ Ledger.after ∅ acts = ∅

theorem givesBack_nil
    : GivesBack [] := by
  intro _
  exact ⟨trivial, rfl⟩

theorem givesBack_memory (slots : Nat)
    : GivesBack [.acquire (.memory slots), .release (.memory slots)] := by
  intro _
  simp [Ledger.Owned, Ledger.Act.Owned, Ledger.after, Ledger.Act.after]

theorem givesBack_mutex (owner : Owner)
    : GivesBack [.acquire (.mutex owner), .release (.mutex owner)] := by
  intro _
  simp [Ledger.Owned, Ledger.Act.Owned, Ledger.after, Ledger.Act.after]

theorem givesBack_slots (owner : Owner) (slots : Nat)
    : GivesBack [.acquire (.memory slots), .acquire (.mutex owner), .release (.memory slots),
        .release (.mutex owner)] := by
  intro _
  simp [Ledger.Owned, Ledger.Act.Owned, Ledger.after, Ledger.Act.after, Finset.erase_insert_of_ne]

theorem givesBack_socket (owner : Owner) (slots : Nat) (fd : Int)
    : GivesBack [.acquire (.memory slots), .acquire (.mutex owner), .acquire (.descriptor fd),
        .release (.descriptor fd), .release (.memory slots), .release (.mutex owner)] := by
  intro _
  simp [Ledger.Owned, Ledger.Act.Owned, Ledger.after, Ledger.Act.after, Finset.erase_insert_of_ne]

-- What `mb_tcp_start` comes to.
inductive Starting (owner : Owner) (ctx : Ctx) : Int × Ctx × List Act → Prop where
  | refused {ctx' : Ctx} {acts : List Act} (hctx : ctx' = ctx ∨ ctx'.initialized = false)
      (hacts : GivesBack acts)
      : Starting owner ctx (-1, ctx', acts)
  | serving {cfg : Config} {cap : UInt16} {slots : Nat} {listenSock : Int}
      (hmode : cfg.mode = .listenServer) (hlisten : 0 ≤ listenSock)
      : Starting owner ctx
          (0, ⟨cfg, listenSock, -1, some (slots, List.replicate cap.toNat (-1)), cap, true⟩,
            [.acquire (.memory slots), .acquire (.mutex owner), .acquire (.descriptor listenSock),
              .acquire (.thread owner)])
  | seeking {cfg : Config} (hmode : cfg.mode = .connectClient)
      : Starting owner ctx
          (0, ⟨cfg, -1, -1, none, 0, true⟩, [.acquire (.mutex owner), .acquire (.thread owner)])

theorem closeSocket_of_neg {fd : Int} (h : fd < 0)
    : closeSocket fd = [] := by
  apply if_neg (by omega)

theorem closeSocket_of_nonneg {fd : Int} (h : 0 ≤ fd)
    : closeSocket fd = [.release (.descriptor fd)] := by
  apply if_pos h

theorem startThread_serving {env : StartEnv} {owner : Owner} {cfg : Config} {cap : UInt16}
    {slots : Nat} {fds : List Int} (hmode : cfg.mode = .listenServer)
    : 0 ≤ env.socket ∧ startThread env owner ⟨cfg, -1, -1, some (slots, fds), cap, false⟩
          = (0, ⟨cfg, env.socket, -1, some (slots, fds), cap, true⟩,
            [.acquire (.descriptor env.socket), .acquire (.thread owner)]) ∨
        ∃ ctx', ctx'.initialized = false ∧
          (startThread env owner ⟨cfg, -1, -1, some (slots, fds), cap, false⟩
              = (-1, ctx', [.release (.memory slots), .release (.mutex owner)]) ∨
            startThread env owner ⟨cfg, -1, -1, some (slots, fds), cap, false⟩
              = (-1, ctx', [.acquire (.descriptor env.socket), .release (.descriptor env.socket),
                  .release (.memory slots), .release (.mutex owner)])) := by
  unfold startThread listenInit
  dsimp only
  rw [hmode]
  dsimp only
  by_cases hsocket : env.socket < 0
  . rw [if_pos hsocket]
    dsimp only
    rw [if_neg (by simp), closeSocket_of_neg hsocket]
    exact .inr ⟨_, rfl, .inl rfl⟩
  . rw [if_neg hsocket]
    have hopen : 0 ≤ env.socket := Int.not_lt.mp hsocket
    by_cases hcalls : (!env.setsockopt) = true ∨ (!env.bind) = true ∨ (!env.listen) = true
    . rw [if_pos hcalls]
      dsimp only
      rw [if_neg (by simp)]
      exact .inr ⟨_, rfl, .inr rfl⟩
    . rw [if_neg hcalls]
      dsimp only
      by_cases hthread : env.pthreadCreate = true
      . rw [if_pos ⟨rfl, hthread⟩]
        exact .inl ⟨hopen, rfl⟩
      . rw [if_neg (fun h => hthread h.2), closeSocket_of_nonneg hopen]
        exact .inr ⟨_, rfl, .inr rfl⟩

theorem start_starting (env : StartEnv) (owner : Owner) (ctx : Ctx) (cfg : Config)
    : Starting owner ctx (start env owner ctx cfg) := by
  unfold start
  split
  . exact .refused (.inl rfl) givesBack_nil
  split
  . exact .refused (.inl rfl) givesBack_nil
  cases hmode : cfg.mode with
  | listenServer =>
    unfold allocateSlots
    dsimp only
    rw [hmode]
    dsimp only
    generalize (if cfg.maxClients ≠ 0 then cfg.maxClients else defaultMaxClients) = cap
    cases env.malloc with
    | none => exact .refused (.inr rfl) givesBack_nil
    | some slots =>
      dsimp only
      split
      . exact .refused (.inr rfl) (givesBack_memory slots)
      . have hthread := @startThread_serving env owner cfg cap slots
          (List.replicate cap.toNat (-1)) hmode
        obtain ⟨hopen, heq⟩ | ⟨ctx', hfree, heq | heq⟩ := hthread
        . rw [heq]
          exact .serving hmode hopen
        . rw [heq]
          exact .refused (.inr hfree) (givesBack_slots owner slots)
        . rw [heq]
          exact .refused (.inr hfree) (givesBack_socket owner slots env.socket)
  | connectClient =>
    unfold allocateSlots startThread
    dsimp only
    rw [hmode]
    dsimp only
    split
    . exact .refused (.inr rfl) givesBack_nil
    rw [hmode]
    dsimp only
    split
    . exact .seeking hmode
    . exact .refused (.inr rfl) (givesBack_mutex owner)

theorem start_busy (env : StartEnv) (owner : Owner) {ctx : Ctx} (cfg : Config)
    (h : ctx.initialized = true)
    : start env owner ctx cfg = (-1, ctx, []) := by
  unfold start
  rw [if_pos h]
  apply ite_self

theorem stop_idle (owner : Owner) {ctx : Ctx} (h : ctx.initialized = false)
    : stop owner ctx = ⟨ctx, [], []⟩ := by
  unfold stop
  rw [h]
  rfl

theorem stop_stopped (owner : Owner) (ctx : Ctx)
    : (stop owner ctx).ctx.initialized = false := by
  unfold stop
  cases h : ctx.initialized with
  | false => exact h
  | true => rfl

theorem connect_cases (env : ConnectEnv) (sock : Int) (bindIface remoteHost : String) (port : UInt16)
    : 0 ≤ env.socket ∧ connect env sock bindIface remoteHost port
          = (0, env.socket, [.acquire (.descriptor env.socket)]) ∨
        ∃ rc sock' acts, rc ≠ 0 ∧ (∀ held, Ledger.Passing Resource.Chosen held acts) ∧
          connect env sock bindIface remoteHost port = (rc, sock', acts) := by
  have hclosed : ∀ held, Ledger.Passing Resource.Chosen held
      [.acquire (.descriptor env.socket), .release (.descriptor env.socket)] := by
    intro held
    apply Ledger.Passing.once
    intro hchosen
    exact absurd trivial hchosen
  unfold connect
  split
  . exact .inr ⟨_, _, _, by decide, fun _ => .nil, rfl⟩
  split
  . exact .inr ⟨_, _, _, by decide, fun _ => .nil, rfl⟩
  next hsocket =>
    dsimp only
    split
    . exact .inr ⟨_, _, _, by decide, hclosed, rfl⟩
    split
    . exact .inr ⟨_, _, _, by decide, hclosed, rfl⟩
    . exact .inl ⟨Int.not_lt.mp hsocket, rfl⟩

def transportLifecycle (owner : Owner) : Lifecycle Resource where
  State := Transport
  Start := StartEnv × Config
  Step := ThreadEnv
  initial := ⟨.zeroed, -1, false⟩
  started transport := transport.ctx.initialized
  start arg transport :=
    let (rc, ctx, acts) := start arg.1 owner transport.ctx arg.2
    -- the thread is a new one
    (rc, if rc = 0 then ⟨ctx, -1, false⟩ else { transport with ctx := ctx }, acts)
  step := Transport.iterate
  stop transport :=
    let stopped := stop owner transport.ctx
    ({ transport with ctx := stopped.ctx }, stopped.acts)
  owes _ _ := True

def running (owner : Owner) : Finset Resource :=
  {.thread owner, .mutex owner}

-- What a transport holds in each of its states.
inductive Transport.Holds (owner : Owner) : Transport → Finset Resource → Prop where
  | idle {transport : Transport} (hfree : transport.ctx.initialized = false)
      : Holds owner transport ∅
  | serving {held : Finset Resource} {cfg : Config} {cap : UInt16} {slots : Nat} {fds : List Int}
      {listenSock sock : Int} {connected : Bool} (hmode : cfg.mode = .listenServer)
      (hlisten : 0 ≤ listenSock)
      (htable : Table .descriptor held (startedWith owner slots listenSock) fds)
      : Holds owner ⟨⟨cfg, listenSock, -1, some (slots, fds), cap, true⟩, sock, connected⟩ held
  | seeking {cfg : Config} {sock : Int} (hmode : cfg.mode = .connectClient)
      : Holds owner ⟨⟨cfg, -1, -1, none, 0, true⟩, sock, false⟩ (running owner)
  | connected {cfg : Config} {sock : Int} (hmode : cfg.mode = .connectClient) (hsock : 0 ≤ sock)
      : Holds owner ⟨⟨cfg, -1, sock, none, 0, true⟩, sock, true⟩
          (insert (.descriptor sock) (running owner))

theorem clientProcess_leads (owner : Owner) (env : ThreadEnv) {cfg : Config} {sock : Int}
    (hmode : cfg.mode = .connectClient) (hsock : 0 ≤ sock)
    : (transportLifecycle owner).Leads Resource.Chosen (Transport.Holds owner)
        (insert (.descriptor sock) (running owner))
        (clientProcess env ⟨⟨cfg, -1, sock, none, 0, true⟩, sock, true⟩) := by
  have hmem : .descriptor sock ∈ insert (.descriptor sock) (running owner) :=
    Finset.mem_insert_self _ _
  have hnot : .descriptor sock ∉ running owner := by
    simp [running]
  unfold clientProcess
  dsimp only
  split
  . split
    . have hrelease := (@Ledger.Carries.use _ _ Resource.Chosen _ _ hmem).trans
        (Ledger.Carries.release hmem)
      rw [Finset.erase_insert hnot] at hrelease
      apply Lifecycle.Leads.of_carries hrelease
      exact .seeking hmode
    . apply Lifecycle.Leads.of_carries (Ledger.Carries.use hmem)
      exact .connected hmode hsock
  . apply Lifecycle.Leads.nil
    exact .connected hmode hsock

theorem clientIteration_leads (owner : Owner) (env : ThreadEnv) {cfg : Config} {sock : Int}
    (hmode : cfg.mode = .connectClient)
    : (transportLifecycle owner).Leads Resource.Chosen (Transport.Holds owner) (running owner)
        (clientIteration env ⟨⟨cfg, -1, -1, none, 0, true⟩, sock, false⟩) := by
  unfold clientIteration
  dsimp only
  rw [if_neg (by simp)]
  obtain ⟨hsock, heq⟩ | ⟨rc, sock', acts, hrc, hpassing, heq⟩ :=
    connect_cases env.connect sock cfg.bindIface cfg.remoteHost cfg.port
  . rw [heq]
    dsimp only
    rw [if_pos rfl]
    have hleads := clientProcess_leads owner env hmode hsock
    intro hfresh
    obtain ⟨howned, hholds⟩ := hleads hfresh.2
    exact ⟨⟨fun hchosen => absurd trivial hchosen, howned⟩, hholds⟩
  . rw [heq]
    dsimp only
    rw [if_neg hrc]
    apply Lifecycle.Leads.of_passing (hpassing _)
    exact .seeking hmode

theorem iterate_leads (owner : Owner) (env : ThreadEnv) {transport : Transport}
    {held : Finset Resource} (hholds : transport.Holds owner held)
    : (transportLifecycle owner).Leads Resource.Chosen (Transport.Holds owner) held
        (transport.iterate env) := by
  unfold Transport.iterate
  cases hholds with
  | idle hfree =>
    rw [hfree]
    exact Lifecycle.Leads.nil (.idle hfree)
  | @serving held cfg cap slots fds listenSock sock connected hmode hlisten htable =>
    dsimp only
    rw [if_neg (by simp), hmode]
    intro hfresh
    have hmem : .descriptor listenSock ∈ startedWith owner slots listenSock := by
      simp [startedWith]
    obtain ⟨howned, hnext⟩ := serverThread_table htable hmem hfresh
    exact ⟨howned, .serving hmode hlisten hnext⟩
  | seeking hmode =>
    dsimp only
    rw [if_neg (by simp), hmode]
    exact clientIteration_leads owner env hmode
  | connected hmode hsock =>
    dsimp only
    rw [if_neg (by simp), hmode]
    dsimp only
    unfold clientIteration
    dsimp only
    rw [if_pos rfl]
    exact clientProcess_leads owner env hmode hsock

theorem stop_leads (owner : Owner) {transport : Transport} {held : Finset Resource}
    (hholds : transport.Holds owner held) (hstarted : transport.ctx.initialized = true)
    : (transportLifecycle owner).Leads Resource.Chosen (Transport.Holds owner) held
        ((transportLifecycle owner).stop transport) := by
  have hidle := stop_stopped owner transport.ctx
  suffices hgiven : Ledger.Owned Resource.Chosen held (stop owner transport.ctx).acts ∧
      Ledger.after held (stop owner transport.ctx).acts = ∅ by
    intro _
    refine ⟨hgiven.1, ?_⟩
    change Transport.Holds owner _ (Ledger.after held (stop owner transport.ctx).acts)
    rw [hgiven.2]
    exact .idle hidle
  cases hholds with
  | idle hfree =>
    rw [hfree] at hstarted
    contradiction
  | serving hmode hlisten htable => exact stop_releases rfl hlisten rfl rfl htable
  | @seeking cfg sock hmode =>
    have hacts : (stop owner ⟨cfg, -1, -1, none, 0, true⟩).acts
      = [.release (.thread owner), .release (.mutex owner)] := rfl
    dsimp only
    rw [hacts]
    simp [running, Ledger.Owned, Ledger.Act.Owned, Ledger.after, Ledger.Act.after]
  | @connected cfg sock hmode hsock =>
    have hacts : (stop owner ⟨cfg, -1, sock, none, 0, true⟩).acts
      = [.release (.thread owner), .release (.descriptor sock), .release (.mutex owner)] := by
      unfold stop
      dsimp only
      rw [closeSocket_of_nonneg hsock]
      rfl
    have hheld : insert (.descriptor sock) (running owner)
        = {.thread owner, .descriptor sock, .mutex owner} := Finset.insert_comm _ _ _
    dsimp only
    rw [hacts, hheld]
    simp [Ledger.Owned, Ledger.Act.Owned, Ledger.after, Ledger.Act.after]

theorem holds_free {owner : Owner} {transport : Transport} {held : Finset Resource}
    (hholds : transport.Holds owner held) (hfree : transport.ctx.initialized = false)
    : held = ∅ := by
  cases hholds with
  | idle _ => rfl
  | _ => contradiction

theorem start_leads (owner : Owner) (arg : StartEnv × Config) {transport : Transport}
    (hfree : transport.ctx.initialized = false)
    : (transportLifecycle owner).Leads Resource.Chosen (Transport.Holds owner) ∅
        ((transportLifecycle owner).start arg transport).2 := by
  have hstarting := start_starting arg.1 owner transport.ctx arg.2
  dsimp only [transportLifecycle]
  generalize start arg.1 owner transport.ctx arg.2 = started at hstarting ⊢
  cases hstarting with
  | @refused ctx' acts hctx hacts =>
    have hidle : ctx'.initialized = false := by
      obtain heq | hidle := hctx
      . rw [heq]
        exact hfree
      . exact hidle
    intro hfresh
    obtain ⟨howned, hafter⟩ := hacts hfresh
    refine ⟨howned, ?_⟩
    change Transport.Holds owner _ (Ledger.after ∅ acts)
    rw [hafter]
    exact .idle hidle
  | @serving cfg cap slots listenSock hmode hlisten =>
    intro hfresh
    refine ⟨?_, ?_⟩
    . simp [Ledger.Owned, Ledger.Act.Owned, Ledger.Act.after]
    . exact .serving hmode hlisten (table_replicate (startedWith owner slots listenSock) cap.toNat)
  | @seeking cfg hmode =>
    intro _
    refine ⟨?_, ?_⟩
    . simp [Ledger.Owned, Ledger.Act.Owned, Ledger.Act.after]
    . exact .seeking hmode

theorem start_sample (owner : Owner) {ctx : Ctx} (hfree : ctx.initialized = false)
    : start sampleEnv owner ctx sampleListen
        = (0, ⟨sampleListen, 3, -1, some (4096, [-1, -1]), 2, true⟩,
            [.acquire (.memory 4096), .acquire (.mutex owner), .acquire (.descriptor 3),
              .acquire (.thread owner)]) := by
  unfold start
  rw [hfree]
  rfl

theorem transport_lawful (owner : Owner)
    : (transportLifecycle owner).Lawful Resource.Chosen (Transport.Holds owner) := by
  constructor
  . exact .idle rfl
  . intro transport held arg hholds hstarted
    rw [holds_free hholds hstarted]
    exact start_leads owner arg hstarted
  . intro transport arg hstarted
    have hstarting := start_starting arg.1 owner transport.ctx arg.2
    dsimp only [transportLifecycle] at hstarted ⊢
    generalize start arg.1 owner transport.ctx arg.2 = started at hstarting ⊢
    cases hstarting with
    | refused hctx _ =>
      obtain heq | hidle := hctx
      . simp [heq, hstarted]
      . simp [hidle]
    | serving _ _ => simp
    | seeking _ => simp
  . intro transport arg hstarted
    dsimp only [transportLifecycle] at hstarted ⊢
    rw [start_busy arg.1 owner arg.2 hstarted]
    rfl
  . intro transport held env hholds
    exact iterate_leads owner env hholds
  . intro transport held hholds hstarted
    exact stop_leads owner hholds hstarted
  . intro transport _ _
    exact stop_stopped owner transport.ctx
  . intro transport hstarted
    dsimp only [transportLifecycle] at hstarted ⊢
    rw [stop_idle owner hstarted]
    rfl
  . intro transport held hholds hstarted a _
    rw [holds_free hholds hstarted]
    exact Finset.notMem_empty a
  . intro transport held hholds hstarted
    rw [holds_free hholds hstarted]
    have hstart := start_sample owner hstarted
    refine ⟨(sampleEnv, sampleListen), ?_⟩
    dsimp only [transportLifecycle]
    rw [hstart]
    refine ⟨rfl, ?_⟩
    simp [Ledger.Fresh, Ledger.Act.Fresh, Ledger.Act.after]

def startServer (owner : Owner) (arg : StartEnv × ServerSettings) (transport : Transport)
    : Int × Transport × List Act :=
  let (rc, ctx, acts) := serverStart arg.1 owner transport.ctx arg.2
  -- the whole context is set to zero before the transport is started
  (rc, if transport.ctx.initialized then transport else ⟨ctx, -1, false⟩, acts)

def serverLifecycle (owner : Owner) : Lifecycle Resource :=
  (transportLifecycle owner).anew (StartEnv × ServerSettings) (startServer owner)

def ServerSettings.config (settings : ServerSettings) : Config :=
  ⟨.listenServer, "", settings.port, "", settings.maxClients, ⟨true, settings.onLink, false⟩⟩

theorem startServer_free (owner : Owner) (arg : StartEnv × ServerSettings) {transport : Transport}
    (hfree : transport.ctx.initialized = false)
    : startServer owner arg transport
        =
      (transportLifecycle owner).start (arg.1, arg.2.config) (transportLifecycle owner).initial := by
  unfold startServer serverStart
  rw [hfree]
  dsimp only [transportLifecycle]
  rw [if_neg (by simp), if_neg (by simp), ite_self]
  rfl

theorem startServer_busy (owner : Owner) (arg : StartEnv × ServerSettings) {transport : Transport}
    (hstarted : transport.ctx.initialized = true)
    : startServer owner arg transport = (-1, transport, []) := by
  unfold startServer serverStart
  rw [hstarted]
  rfl

theorem server_lawful (owner : Owner)
    : (serverLifecycle owner).Lawful Resource.Chosen (Transport.Holds owner) := by
  apply (transport_lawful owner).anew
  . rfl
  . intro transport held hholds hfree
    exact holds_free hholds hfree
  . intro transport arg hfree
    exact .inr ⟨_, startServer_free owner arg hfree⟩
  . intro transport arg hstarted
    exact startServer_busy owner arg hstarted
  . intro transport hfree
    refine ⟨(sampleEnv, ⟨502, 2, true⟩), ?_⟩
    rw [startServer_free owner _ hfree]
    have hstart := @start_sample owner .zeroed rfl
    change (start sampleEnv owner .zeroed sampleListen).1 = 0 ∧
      Ledger.Fresh Resource.Chosen ∅ (start sampleEnv owner .zeroed sampleListen).2.2
    rw [hstart]
    refine ⟨rfl, ?_⟩
    simp [Ledger.Fresh, Ledger.Act.Fresh, Ledger.Act.after]

namespace Client

-- What may happen to a client between its connect and its disconnect.
inductive Request where
  | transact (line : Line) (req pdu : Mem UInt8) (pduLen : Nat) (resp : Mem UInt8)
  | setUnitId (unitId : UInt8)

def request (owner : Owner) (request : Request) (ctx : ClientCtx) : ClientCtx × List Act :=
  match request with
  | .transact line req pdu pduLen resp =>
    let ctx' := (transact ⟨ctx, line⟩ req pdu pduLen resp).ses.ctx
    (ctx', requestActs owner ctx ctx')
  | .setUnitId unitId =>
    (setUnitId ctx unitId, if ctx.initialized then [.use (.mutex owner)] else [])

def lifecycle (owner : Owner) : Lifecycle Resource where
  State := ClientCtx
  Start := ClientEnv × ClientConfig
  Step := Request
  initial := .zeroed
  started ctx := ctx.initialized
  start arg ctx := connect arg.1 owner ctx arg.2
  step := request owner
  stop := disconnect owner
  owes _ _ := True

-- A request keeps the socket or closes it.
theorem transact_sock (ses : Session) (req pdu : Mem UInt8) (pduLen : Nat) (resp : Mem UInt8)
    : (transact ses req pdu pduLen resp).ses.ctx.initialized = ses.ctx.initialized ∧
      ((transact ses req pdu pduLen resp).ses.ctx.sock = ses.ctx.sock ∨
        (transact ses req pdu pduLen resp).ses.ctx.sock = -1) := by
  unfold transact
  split
  . exact ⟨rfl, .inl rfl⟩
  split
  . exact ⟨rfl, .inl rfl⟩
  dsimp only
  generalize sendAll ses.line _ = sent
  obtain ⟨ok, line⟩ := sent
  cases ok with
  | false => exact ⟨rfl, .inr rfl⟩
  | true =>
    dsimp only
    unfold awaitReply
    dsimp only
    generalize recvMatching _ resp _ _ = received
    obtain ⟨received, staleSeen⟩ := received
    dsimp only
    have hsock : ∀ sock : Int, (if received.rc = -1 ∨ received.rc = recvPartialTimeout then -1 else sock)
        = sock ∨ (if received.rc = -1 ∨ received.rc = recvPartialTimeout then -1 else sock) = -1 := by
      intro sock
      split
      . exact .inr rfl
      . exact .inl rfl
    split
    . exact ⟨rfl, hsock _⟩
    split
    . exact ⟨rfl, hsock _⟩
    split
    . exact ⟨rfl, hsock _⟩
    split
    . exact ⟨rfl, hsock _⟩
    . exact ⟨rfl, hsock _⟩

inductive ClientCtx.Holds (owner : Owner) : ClientCtx → Finset Resource → Prop where
  | idle {ctx : ClientCtx} (hfree : ctx.initialized = false)
      : Holds owner ctx ∅
  | connected {ctx : ClientCtx} (hinit : ctx.initialized = true) (hsock : 0 ≤ ctx.sock)
      : Holds owner ctx {.descriptor ctx.sock, .mutex owner}
  | lost {ctx : ClientCtx} (hinit : ctx.initialized = true) (hsock : ctx.sock < 0)
      : Holds owner ctx {.mutex owner}

theorem holds_free {owner : Owner} {ctx : ClientCtx} {held : Finset Resource}
    (hholds : ctx.Holds owner held) (hfree : ctx.initialized = false)
    : held = ∅ := by
  cases hholds with
  | idle _ => rfl
  | connected hinit _ =>
    rw [hfree] at hinit
    contradiction
  | lost hinit _ =>
    rw [hfree] at hinit
    contradiction

-- What `mb_tcp_client_connect` comes to.
inductive Connecting (owner : Owner) (ctx : ClientCtx) : Int × ClientCtx × List Act → Prop where
  | refused {ctx' : ClientCtx} {acts : List Act} (hctx : ctx' = ctx ∨ ctx'.initialized = false)
      (hacts : Ledger.Passing Resource.Chosen ∅ acts)
      : Connecting owner ctx (-1, ctx', acts)
  | connected {sock : Int} {cfg : ClientConfig} (hsock : 0 ≤ sock)
      : Connecting owner ctx
          (0, ⟨sock, 0, true, cfg⟩, [.acquire (.mutex owner), .acquire (.descriptor sock)])

theorem connect_connecting (env : ClientEnv) (owner : Owner) (ctx : ClientCtx) (cfg : ClientConfig)
    : Connecting owner ctx (connect env owner ctx cfg) := by
  unfold connect
  split
  . exact .refused (.inl rfl) .nil
  split
  . exact .refused (.inl rfl) .nil
  dsimp only
  split
  . exact .refused (.inr rfl) .nil
  obtain ⟨hsock, heq⟩ | ⟨rc, sock, acts, hrc, hpassing, heq⟩ :=
    connect_cases env.connect (-1) cfg.bindIface cfg.remoteHost cfg.port
  . rw [heq]
    exact .connected hsock
  . rw [heq]
    dsimp only
    rw [if_pos hrc]
    apply Connecting.refused (.inr rfl)
    apply Ledger.Passing.bracket
    . intro _
      exact Finset.notMem_empty _
    . intro _
      apply hpassing

theorem connect_busy (env : ClientEnv) (owner : Owner) {ctx : ClientCtx} (cfg : ClientConfig)
    (hinit : ctx.initialized = true)
    : connect env owner ctx cfg = (-1, ctx, []) := by
  unfold connect
  rw [if_pos hinit]
  apply ite_self

theorem request_leads (owner : Owner) (arg : Request) {ctx : ClientCtx} {held : Finset Resource}
    (hholds : ctx.Holds owner held)
    : (lifecycle owner).Leads Resource.Chosen (ClientCtx.Holds owner) held (request owner arg ctx) := by
  cases arg with
  | setUnitId unitId =>
    unfold request setUnitId
    dsimp only
    cases hholds with
    | idle hfree =>
      rw [hfree]
      exact Lifecycle.Leads.nil (.idle hfree)
    | connected hinit hsock =>
      rw [hinit]
      apply Lifecycle.Leads.of_carries (Ledger.Carries.use (by simp))
      exact .connected rfl hsock
    | lost hinit hsock =>
      rw [hinit]
      apply Lifecycle.Leads.of_carries (Ledger.Carries.use (by simp))
      exact .lost rfl hsock
  | transact line req pdu pduLen resp =>
    have hsock := transact_sock ⟨ctx, line⟩ req pdu pduLen resp
    unfold request requestActs
    dsimp only at hsock ⊢
    generalize (transact ⟨ctx, line⟩ req pdu pduLen resp).ses.ctx = ctx' at hsock ⊢
    obtain ⟨hinit', hsock⟩ := hsock
    cases hholds with
    | idle hfree =>
      rw [hfree] at hinit' ⊢
      exact Lifecycle.Leads.nil (.idle hinit')
    | connected hinit hopen =>
      rw [hinit] at hinit' ⊢
      rw [if_neg (by simp), if_neg (Int.not_lt.mpr hopen)]
      have hmutex : .mutex owner ∈ ({.descriptor ctx.sock, .mutex owner} : Finset Resource) := by simp
      have hmem : .descriptor ctx.sock ∈ ({.descriptor ctx.sock, .mutex owner} : Finset Resource) := by simp
      have huse := @Ledger.Carries.use _ _ Resource.Chosen _ _ hmutex
      by_cases hclosed : ctx'.sock < 0
      . rw [if_pos hclosed]
        have hrelease := @Ledger.Carries.release _ _ Resource.Chosen _ _ hmem
        rw [Finset.erase_insert (by simp)] at hrelease
        apply Lifecycle.Leads.of_carries (huse.trans ((Ledger.Carries.use hmem).trans hrelease))
        exact .lost hinit' hclosed
      . rw [if_neg hclosed]
        have hholds := @ClientCtx.Holds.connected owner ctx' hinit' (Int.not_lt.mp hclosed)
        have hsame : ctx'.sock = ctx.sock := by omega
        rw [hsame] at hholds
        exact Lifecycle.Leads.of_carries (huse.trans (Ledger.Carries.use hmem)) hholds
    | lost hinit hclosed =>
      rw [hinit] at hinit' ⊢
      rw [if_neg (by simp), if_pos hclosed]
      apply Lifecycle.Leads.of_carries (Ledger.Carries.use (by simp))
      apply ClientCtx.Holds.lost hinit'
      omega

theorem disconnect_connected (owner : Owner) {ctx : ClientCtx} (hinit : ctx.initialized = true)
    (hsock : 0 ≤ ctx.sock)
    : disconnect owner ctx
        = ({ ctx with sock := -1, initialized := false },
            [.release (.descriptor ctx.sock), .release (.mutex owner)]) := by
  unfold disconnect
  rw [hinit, closeSocket_of_nonneg hsock, if_pos hsock]
  rfl

theorem disconnect_lost (owner : Owner) {ctx : ClientCtx} (hinit : ctx.initialized = true)
    (hsock : ctx.sock < 0)
    : disconnect owner ctx = ({ ctx with initialized := false }, [.release (.mutex owner)]) := by
  unfold disconnect
  rw [hinit, closeSocket_of_neg hsock, if_neg (by simp), if_neg (Int.not_le.mpr hsock)]
  rfl

theorem disconnect_leads (owner : Owner) {ctx : ClientCtx} {held : Finset Resource}
    (hholds : ctx.Holds owner held) (hinit : ctx.initialized = true)
    : (lifecycle owner).Leads Resource.Chosen (ClientCtx.Holds owner) held (disconnect owner ctx) := by
  cases hholds with
  | idle hfree =>
    rw [hfree] at hinit
    contradiction
  | connected _ hsock =>
    have hmem : .descriptor ctx.sock ∈ ({.descriptor ctx.sock, .mutex owner} : Finset Resource) := by simp
    have hdescriptor := @Ledger.Carries.release _ _ Resource.Chosen _ _ hmem
    rw [Finset.erase_insert (by simp)] at hdescriptor
    rw [disconnect_connected owner hinit hsock]
    apply Lifecycle.Leads.of_carries (hdescriptor.trans (Ledger.Carries.release (by simp)))
    rw [Finset.erase_singleton]
    exact .idle rfl
  | lost _ hsock =>
    rw [disconnect_lost owner hinit hsock]
    apply Lifecycle.Leads.of_carries (Ledger.Carries.release (by simp))
    rw [Finset.erase_singleton]
    exact .idle rfl

-- A connect for which every call succeeds.
def sampleClientEnv : ClientEnv :=
  ⟨true, ⟨3, true, true, true, true, true⟩⟩

def sampleClientConfig : ClientConfig :=
  ⟨"127.0.0.1", 502, "", 1, 0⟩

theorem connect_sample (owner : Owner) {ctx : ClientCtx} (hfree : ctx.initialized = false)
    : connect sampleClientEnv owner ctx sampleClientConfig
        = (0, ⟨3, 0, true, sampleClientConfig⟩, [.acquire (.mutex owner), .acquire (.descriptor 3)]) := by
  unfold connect
  rw [hfree]
  rfl

theorem client_lawful (owner : Owner)
    : (lifecycle owner).Lawful Resource.Chosen (ClientCtx.Holds owner) := by
  constructor
  . exact .idle rfl
  . intro ctx held arg hholds hfree
    rw [holds_free hholds hfree]
    have hconnecting := connect_connecting arg.1 owner ctx arg.2
    change (lifecycle owner).Leads _ _ _ (connect arg.1 owner ctx arg.2).2
    generalize connect arg.1 owner ctx arg.2 = connected at hconnecting ⊢
    cases hconnecting with
    | @refused ctx' acts hctx hacts =>
      apply Lifecycle.Leads.of_passing hacts
      obtain heq | hidle := hctx
      . rw [heq]
        exact .idle hfree
      . exact .idle hidle
    | @connected sock cfg hsock =>
      intro _
      refine ⟨?_, ?_⟩
      . simp [Ledger.Owned, Ledger.Act.Owned, Ledger.Act.after]
      . exact .connected rfl hsock
  . intro ctx arg hfree
    have hconnecting := connect_connecting arg.1 owner ctx arg.2
    change (connect arg.1 owner ctx arg.2).1 = 0
      ↔ (connect arg.1 owner ctx arg.2).2.1.initialized = true
    have hinit : ctx.initialized = false := hfree
    generalize connect arg.1 owner ctx arg.2 = connected at hconnecting ⊢
    cases hconnecting with
    | refused hctx _ =>
      obtain heq | hidle := hctx
      . simp [heq, hinit]
      . simp [hidle]
    | connected _ => simp
  . intro ctx arg hinit
    exact connect_busy arg.1 owner arg.2 hinit
  . intro ctx held arg hholds
    exact request_leads owner arg hholds
  . intro ctx held hholds hinit
    exact disconnect_leads owner hholds hinit
  . intro ctx _ _
    change (disconnect owner ctx).1.initialized = false
    unfold disconnect
    cases hinit : ctx.initialized with
    | false => exact hinit
    | true => rfl
  . intro ctx hfree
    change disconnect owner ctx = (ctx, [])
    unfold disconnect
    have hinit : ctx.initialized = false := hfree
    rw [hinit]
    rfl
  . intro ctx held hholds hfree a _
    rw [holds_free hholds hfree]
    exact Finset.notMem_empty a
  . intro ctx held hholds hfree
    rw [holds_free hholds hfree]
    refine ⟨(sampleClientEnv, sampleClientConfig), ?_⟩
    change (connect sampleClientEnv owner ctx sampleClientConfig).1 = 0 ∧
      Ledger.Fresh Resource.Chosen ∅ (connect sampleClientEnv owner ctx sampleClientConfig).2.2
    rw [connect_sample owner hfree]
    refine ⟨rfl, ?_⟩
    simp [Ledger.Fresh, Ledger.Act.Fresh, Ledger.Act.after]

end Client

end Tcp
