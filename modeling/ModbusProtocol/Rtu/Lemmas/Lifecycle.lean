import ModbusProtocol.Data.Lifecycle
import ModbusProtocol.Rtu.Impl.Transport
import ModbusProtocol.Rtu.Lemmas.Registry

/-!
This module contains the lifecycles of an RTU transport, of an RTU server and of an RTU client.
-/

open Posix

namespace Rtu

open Ledger (Lifecycle)

def transportLifecycle (owner : Owner) : Lifecycle Resource where
  State := Ctx
  Start := StartEnv × Config
  Step := Unit
  initial := .zeroed
  started ctx := ctx.initialized
  start arg ctx := start arg.1 owner ctx arg.2
  step _ := iterate
  stop := stop owner
  owes _ _ := True

-- What a transport holds in each of its states.
inductive Ctx.Holds (owner : Owner) : Ctx → Finset Resource → Prop where
  | idle {ctx : Ctx} (hfree : ctx.initialized = false)
      : Holds owner ctx ∅
  | running {ctx : Ctx} (hinit : ctx.initialized = true) (hfd : 0 ≤ ctx.serialFd)
      : Holds owner ctx {.thread owner, .descriptor ctx.serialFd, .mutex owner}

theorem holds_free {owner : Owner} {ctx : Ctx} {held : Finset Resource}
    (hholds : ctx.Holds owner held) (hfree : ctx.initialized = false)
    : held = ∅ := by
  cases hholds with
  | idle _ => rfl
  | running hinit _ =>
    rw [hfree] at hinit
    contradiction

-- What `mb_rtu_start` comes to.
inductive Starting (owner : Owner) (ctx : Ctx) : Int × Ctx × List Act → Prop where
  | refused {ctx' : Ctx} {acts : List Act} (hctx : ctx' = ctx ∨ ctx'.initialized = false)
      (hacts : Ledger.Passing Resource.Chosen ∅ acts)
      : Starting owner ctx (-1, ctx', acts)
  | running {cfg : Config} {fd : Int} (hfd : 0 ≤ fd)
      : Starting owner ctx (0, ⟨cfg, fd, true⟩,
          [.acquire (.mutex owner), .acquire (.descriptor fd), .acquire (.thread owner)])

theorem start_starting (env : StartEnv) (owner : Owner) (ctx : Ctx) (cfg : Config)
    : Starting owner ctx (start env owner ctx cfg) := by
  have hmutex : ¬Resource.Chosen (.mutex owner) → .mutex owner ∉ (∅ : Finset Resource) := by
    intro _
    exact Finset.notMem_empty _
  unfold start
  split
  . exact .refused (.inl rfl) .nil
  split
  . exact .refused (.inl rfl) .nil
  dsimp only
  split
  . exact .refused (.inr rfl) .nil
  obtain ⟨hfd, heq⟩ | ⟨acts, hpassing, heq⟩ := Client.openPort_cases cfg.serial env.port
  . rw [heq]
    dsimp only
    split
    . rw [Client.closePort_of_nonneg hfd]
      apply Starting.refused (.inr rfl)
      apply @Ledger.Passing.bracket _ _ _ _ _ [.acquire (.descriptor env.port.fd),
        .release (.descriptor env.port.fd)] hmutex
      intro _
      apply Ledger.Passing.once
      intro hchosen
      exact absurd trivial hchosen
    . exact .running hfd
  . rw [heq]
    apply Starting.refused (.inr rfl)
    apply Ledger.Passing.bracket hmutex
    intro _
    apply hpassing

theorem start_busy (env : StartEnv) (owner : Owner) {ctx : Ctx} (cfg : Config)
    (hinit : ctx.initialized = true)
    : start env owner ctx cfg = (-1, ctx, []) := by
  unfold start
  rw [if_pos hinit]
  apply ite_self

theorem stop_running (owner : Owner) {ctx : Ctx} (hinit : ctx.initialized = true)
    (hfd : 0 ≤ ctx.serialFd)
    : stop owner ctx
        = (⟨ctx.cfg, -1, false⟩, [.release (.thread owner), .release (.descriptor ctx.serialFd),
            .release (.mutex owner)]) := by
  unfold stop
  rw [hinit, Client.closePort_of_nonneg hfd]
  rfl

-- A start for which every call succeeds.
def sampleEnv : StartEnv :=
  ⟨true, ⟨3, true⟩, true, true⟩

def sampleSerial : SerialConfig :=
  ⟨"/dev/ttyUSB0", 0, 0, 0, .none, .none⟩

theorem start_sample (owner : Owner) {ctx : Ctx} (hfree : ctx.initialized = false)
    : start sampleEnv owner ctx ⟨sampleSerial, 1000, true⟩
        = (0, ⟨⟨sampleSerial, 1000, true⟩, 3, true⟩,
            [.acquire (.mutex owner), .acquire (.descriptor 3), .acquire (.thread owner)]) := by
  unfold start
  rw [hfree]
  rfl

theorem transport_lawful (owner : Owner)
    : (transportLifecycle owner).Lawful Resource.Chosen (Ctx.Holds owner) := by
  constructor
  . exact .idle rfl
  . intro ctx held arg hholds hfree
    rw [holds_free hholds hfree]
    have hstarting := start_starting arg.1 owner ctx arg.2
    change (transportLifecycle owner).Leads _ _ _ (start arg.1 owner ctx arg.2).2
    generalize start arg.1 owner ctx arg.2 = started at hstarting ⊢
    cases hstarting with
    | @refused ctx' acts hctx hacts =>
      apply Lifecycle.Leads.of_passing hacts
      obtain heq | hidle := hctx
      . rw [heq]
        exact .idle hfree
      . exact .idle hidle
    | @running cfg fd hfd =>
      intro _
      refine ⟨?_, ?_⟩
      . simp [Ledger.Owned, Ledger.Act.Owned, Ledger.Act.after]
      . exact .running rfl hfd
  . intro ctx arg hfree
    have hstarting := start_starting arg.1 owner ctx arg.2
    change (start arg.1 owner ctx arg.2).1 = 0 ↔ (start arg.1 owner ctx arg.2).2.1.initialized = true
    have hinit : ctx.initialized = false := hfree
    generalize start arg.1 owner ctx arg.2 = started at hstarting ⊢
    cases hstarting with
    | refused hctx _ =>
      obtain heq | hidle := hctx
      . simp [heq, hinit]
      . simp [hidle]
    | running _ => simp
  . intro ctx arg hinit
    exact start_busy arg.1 owner arg.2 hinit
  . intro ctx held _ hholds
    change (transportLifecycle owner).Leads _ _ _ (iterate ctx)
    unfold iterate
    split
    next hrunning =>
      cases hholds with
      | idle hfree =>
        rw [hfree] at hrunning
        simp at hrunning
      | running hinit hfd =>
        apply Lifecycle.Leads.of_carries (Ledger.Carries.use (by simp))
        exact .running hinit hfd
    . exact Lifecycle.Leads.nil hholds
  . intro ctx held hholds hinit
    cases hholds with
    | idle hfree =>
      have hfree' : ctx.initialized = true := hinit
      rw [hfree] at hfree'
      contradiction
    | running hinit hfd =>
      change (transportLifecycle owner).Leads _ _ _ (stop owner ctx)
      rw [stop_running owner hinit hfd]
      intro _
      refine ⟨?_, ?_⟩
      . simp [Ledger.Owned, Ledger.Act.Owned, Ledger.Act.after]
      . have hafter : Ledger.after {.thread owner, .descriptor ctx.serialFd, .mutex owner}
            [.release (.thread owner), .release (.descriptor ctx.serialFd), .release (.mutex owner)]
            = (∅ : Finset Resource) := by
          simp [Ledger.after, Ledger.Act.after]
        rw [hafter]
        exact .idle rfl
  . intro ctx _ _
    change (stop owner ctx).1.initialized = false
    unfold stop
    cases hinit : ctx.initialized with
    | false => exact hinit
    | true => rfl
  . intro ctx hfree
    change stop owner ctx = (ctx, [])
    have hinit : ctx.initialized = false := hfree
    unfold stop
    rw [hinit]
    rfl
  . intro ctx held hholds hfree a _
    rw [holds_free hholds hfree]
    exact Finset.notMem_empty a
  . intro ctx held hholds hfree
    rw [holds_free hholds hfree]
    refine ⟨(sampleEnv, ⟨sampleSerial, 1000, true⟩), ?_⟩
    change (start sampleEnv owner ctx ⟨sampleSerial, 1000, true⟩).1 = 0 ∧
      Ledger.Fresh Resource.Chosen ∅ (start sampleEnv owner ctx ⟨sampleSerial, 1000, true⟩).2.2
    rw [start_sample owner hfree]
    refine ⟨rfl, ?_⟩
    simp [Ledger.Fresh, Ledger.Act.Fresh, Ledger.Act.after]

def serverLifecycle (owner : Owner) : Lifecycle Resource :=
  (transportLifecycle owner).anew (StartEnv × SerialConfig × UInt32) fun arg ctx =>
    serverStart arg.1 owner ctx arg.2.1 arg.2.2

theorem server_lawful (owner : Owner)
    : (serverLifecycle owner).Lawful Resource.Chosen (Ctx.Holds owner) := by
  apply (transport_lawful owner).anew
  . rfl
  . intro ctx held hholds hfree
    exact holds_free hholds hfree
  . intro ctx arg hfree
    have hinit : ctx.initialized = false := hfree
    unfold serverStart
    split
    . exact .inl rfl
    . right
      rw [hinit]
      exact ⟨(arg.1, _), rfl⟩
  . intro ctx arg hstarted
    have hinit : ctx.initialized = true := hstarted
    unfold serverStart
    rw [if_pos hinit]
    apply ite_self
  . intro ctx hfree
    have hinit : ctx.initialized = false := hfree
    refine ⟨(sampleEnv, sampleSerial, 1000), ?_⟩
    have hstart : serverStart sampleEnv owner ctx sampleSerial 1000
        = start sampleEnv owner .zeroed ⟨sampleSerial, 1000, true⟩ := by
      unfold serverStart
      rw [hinit]
      rfl
    dsimp only
    rw [hstart, start_sample owner rfl]
    refine ⟨rfl, ?_⟩
    simp [Ledger.Fresh, Ledger.Act.Fresh, Ledger.Act.after]

namespace Client

-- A call on a context other than the first one.
def Call.other : Call → Call
  | .connect index cfg env => .connect (index + 1) cfg env
  | .disconnect index => .disconnect (index + 1)

def Called.result (called : Called) : Clients × List Act :=
  (called.clients, called.acts)

-- The first of the contexts of a process.
def lifecycle (others : Nat) : Lifecycle Resource where
  State := Clients
  Start := ClientConfig × ConnectEnv
  Step := Call
  initial := ⟨[], List.replicate (others + 1) .zeroed⟩
  started clients := clients.ctxs[0]?.any fun ctx => ctx.initialized
  start arg clients :=
    let called := (Call.connect 0 arg.1 arg.2).perform clients
    (called.rc, called.result)
  step call clients := (call.other.perform clients).result
  stop clients := ((Call.disconnect 0).perform clients).result
  owes clients resource := resource = .mutex (.context 0) ∨ ∀ index, ¬clients.Connected index

def Clients.Accounted (others : Nat) (clients : Clients) (held : Finset Resource) : Prop :=
  clients.Registered held ∧ clients.ctxs.length = others + 1

theorem started_iff (others : Nat) (clients : Clients)
    : (lifecycle others).started clients = true ↔ clients.Connected 0 := by
  change (clients.ctxs[0]?.any fun ctx => ctx.initialized) = true ↔ _
  unfold Clients.Connected
  cases clients.ctxs[0]? with
  | none => simp
  | some ctx => simp

theorem not_connected {others : Nat} {clients : Clients}
    (hstarted : (lifecycle others).started clients = false)
    : ¬clients.Connected 0 := by
  rw [← started_iff others, hstarted]
  decide

theorem perform_leads {others : Nat} (hothers : others + 1 < 2 ^ 32) (call : Call) {clients : Clients}
    {held : Finset Resource} (hholds : clients.Accounted others held)
    : (lifecycle others).Leads Resource.Chosen (Clients.Accounted others) held
        (call.perform clients).result := by
  obtain ⟨hregistered, hlength⟩ := hholds
  intro hfresh
  have hlength' := (perform_length call clients).trans hlength
  obtain ⟨howned, hregistered'⟩ := hregistered.perform call hfresh (by
    intro bus
    have hle := attached_le (call.perform clients).clients bus
    omega)
  exact ⟨howned, hregistered', hlength'⟩

-- Where no context is connected, there is no record.
theorem reg_nil {clients : Clients} {held : Finset Resource} (h : clients.Registered held)
    (hfree : ∀ index, ¬clients.Connected index)
    : clients.reg = [] := by
  apply List.eq_nil_iff_forall_not_mem.mpr
  intro entry hmem
  obtain ⟨ctx, hctx, hattached, _⟩ := h.exists_attached hmem
  obtain ⟨index, hindex⟩ := List.getElem?_of_mem hctx
  exact hfree index ⟨ctx, hindex, ((attachedTo_iff ctx entry.1).mp hattached).1⟩

theorem not_owed {others : Nat} {clients : Clients} {held : Finset Resource}
    (h : clients.Registered held) (hstarted : (lifecycle others).started clients = false)
    {resource : Resource} (howes : (lifecycle others).owes clients resource)
    : resource ∉ held := by
  have hfree := not_connected hstarted
  rw [h.held]
  obtain heq | hnone := howes
  . rw [heq]
    exact hfree
  . have hreg := reg_nil h hnone
    unfold Clients.Holds Records.keys
    rw [hreg]
    split
    . exact List.not_mem_nil
    . exact List.not_mem_nil
    . exact List.not_mem_nil
    . apply hnone
    . exact id

theorem perform_connect {clients : Clients} {index : Nat} {ctx : ClientCtx}
    (hindex : clients.ctxs[index]? = some ctx) (cfg : ClientConfig) (env : ConnectEnv)
    : (Call.connect index cfg env).perform clients
        =
      ⟨(connect env clients.reg index ctx cfg).rc, ⟨(connect env clients.reg index ctx cfg).reg,
          clients.ctxs.set index (connect env clients.reg index ctx cfg).ctx⟩,
        (connect env clients.reg index ctx cfg).acts⟩ := by
  unfold Call.perform
  dsimp only
  rw [hindex]

theorem perform_disconnect {clients : Clients} {index : Nat} {ctx : ClientCtx}
    (hindex : clients.ctxs[index]? = some ctx)
    : (Call.disconnect index).perform clients
        =
      ⟨0, ⟨(disconnect clients.reg index ctx).2.1,
          clients.ctxs.set index (disconnect clients.reg index ctx).1⟩,
        (disconnect clients.reg index ctx).2.2⟩ := by
  unfold Call.perform
  dsimp only
  rw [hindex]

-- Exactly a connect that succeeds makes the context connected.
theorem connect_started {clients : Clients} (cfg : ClientConfig) (env : ConnectEnv)
    (hfree : ¬clients.Connected 0)
    : ((Call.connect 0 cfg env).perform clients).rc = 0
        ↔
      ((Call.connect 0 cfg env).perform clients).clients.Connected 0 := by
  cases hindex : clients.ctxs[0]? with
  | none =>
    unfold Call.perform
    dsimp only
    rw [hindex]
    simp [hfree]
  | some ctx =>
    have hinit : ctx.initialized = false := by
      apply Bool.eq_false_of_not_eq_true
      intro hinit
      exact hfree ⟨ctx, hindex, hinit⟩
    have hconnecting := connect_connecting env clients.reg 0 ctx cfg
    rw [perform_connect hindex, Clients.connected_set clients.reg hindex, if_pos rfl]
    generalize connect env clients.reg 0 ctx cfg = connected at hconnecting ⊢
    cases hconnecting with
    | refused hctx _ =>
      obtain heq | ⟨_, hinit'⟩ := hctx
      . simp [heq, hinit]
      . simp [hinit']
    | joined _ _ _ => simp [ClientCtx.joined]
    | opened _ _ _ _ => simp [ClientCtx.joined]

theorem connect_busy {clients : Clients} (hconnected : clients.Connected 0) (cfg : ClientConfig)
    (env : ConnectEnv)
    : (((Call.connect 0 cfg env).perform clients).rc, ((Call.connect 0 cfg env).perform clients).result)
        =
      (-1, clients, []) := by
  obtain ⟨ctx, hindex, hinit⟩ := hconnected
  have hconnect : connect env clients.reg 0 ctx cfg = ⟨-1, ctx, clients.reg, []⟩ := by
    unfold connect
    rw [if_pos hinit]
    apply ite_self
  obtain ⟨hlt, hget⟩ := List.getElem?_eq_some_iff.mp hindex
  rw [perform_connect hindex, hconnect]
  unfold Called.result
  dsimp only
  rw [← hget, List.set_getElem_self]

theorem disconnect_stopped {clients : Clients} {held : Finset Resource} (h : clients.Registered held)
    : ¬((Call.disconnect 0).perform clients).clients.Connected 0 := by
  cases hindex : clients.ctxs[0]? with
  | none =>
    unfold Call.perform Clients.Connected
    dsimp only
    rw [hindex]
    dsimp only
    rw [hindex]
    simp
  | some ctx =>
    have hdisconnecting := h.disconnecting (List.mem_of_getElem? hindex) 0
    rw [perform_disconnect hindex, Clients.connected_set clients.reg hindex, if_pos rfl]
    generalize disconnect clients.reg 0 ctx = disconnected at hdisconnecting ⊢
    cases hdisconnecting with
    | idle hfree => simp [hfree]
    | left _ _ _ => simp [ClientCtx.left]
    | last _ _ _ => simp [ClientCtx.left]

theorem disconnect_idle {clients : Clients} (hfree : ¬clients.Connected 0)
    : ((Call.disconnect 0).perform clients).result = (clients, []) := by
  cases hindex : clients.ctxs[0]? with
  | none =>
    unfold Call.perform
    dsimp only
    rw [hindex]
    rfl
  | some ctx =>
    have hinit : ctx.initialized = false := by
      apply Bool.eq_false_of_not_eq_true
      intro hinit
      exact hfree ⟨ctx, hindex, hinit⟩
    obtain ⟨hlt, hget⟩ := List.getElem?_eq_some_iff.mp hindex
    rw [perform_disconnect hindex]
    unfold disconnect Called.result
    rw [hinit]
    dsimp only
    rw [← hget]
    simp

-- A connect to a path that is not open.
theorem connect_first {ctx : ClientCtx} (hfree : ctx.initialized = false)
    : connect sharedEnv [] 0 ctx sharedConfig
        = ⟨0, ⟨3, some 1, true, sharedConfig⟩, [(1, sharedRecord 1)],
            [.acquire (.mutex (.context 0)), .acquire (.memory 1), .acquire (.descriptor 3),
              .acquire (.mutex (.memory 1))]⟩ := by
  unfold connect
  rw [hfree]
  rfl

-- A connect to a path that is open, with the same settings.
theorem connect_again {reg : Registry} {entry : Address × SharedBus} {ctx ctx' : ClientCtx}
    (hfree : ctx.initialized = false) (hserves : entry.2.Serves ctx')
    : (connect { sharedEnv with realpath := some entry.2.path } (entry :: reg) 0 ctx
          { ctx'.cfg with device := "/dev/ttyUSB0" }).rc = 0 ∧
      (connect { sharedEnv with realpath := some entry.2.path } (entry :: reg) 0 ctx
          { ctx'.cfg with device := "/dev/ttyUSB0" }).acts = [.acquire (.mutex (.context 0))] := by
  have hfind : findBus (entry :: reg) entry.2.path = some entry := by
    unfold findBus
    rw [List.find?_cons_of_pos (by simp)]
  have hmatch : busSettingsMatch entry.2 (ClientConfig.serial { ctx'.cfg with device := "/dev/ttyUSB0" })
      = true := by
    apply decide_eq_true
    exact ⟨hserves.baudRate, hserves.dataBits, hserves.stopBits, hserves.parity, hserves.rs485Mode⟩
  unfold connect sharedBusAttach resolveBusKey
  dsimp only [sharedEnv]
  rw [hfree, hfind]
  dsimp only
  rw [if_pos hmatch]
  exact ⟨rfl, rfl⟩

theorem client_ready {others : Nat} {clients : Clients} {held : Finset Resource}
    (hholds : clients.Accounted others held) (hstarted : (lifecycle others).started clients = false)
    : ∃ arg, ((lifecycle others).start arg clients).1 = 0 ∧
        Ledger.Fresh Resource.Chosen held ((lifecycle others).start arg clients).2.2 := by
  obtain ⟨hregistered, hlength⟩ := hholds
  obtain ⟨ctx, hindex⟩ : ∃ ctx, clients.ctxs[0]? = some ctx :=
    ⟨_, List.getElem?_eq_getElem (by omega)⟩
  have hfree : ctx.initialized = false := by
    apply Bool.eq_false_of_not_eq_true
    intro hinit
    have hconnected := (started_iff others clients).mpr ⟨ctx, hindex, hinit⟩
    rw [hstarted] at hconnected
    contradiction
  cases hreg : clients.reg with
  | nil =>
    refine ⟨(sharedConfig, sharedEnv), ?_⟩
    change ((Call.connect 0 sharedConfig sharedEnv).perform clients).rc = 0 ∧
      Ledger.Fresh Resource.Chosen held ((Call.connect 0 sharedConfig sharedEnv).perform clients).acts
    rw [perform_connect hindex, hreg, connect_first hfree]
    have hmemory : .memory 1 ∉ held := by
      rw [hregistered.held]
      unfold Clients.Holds Records.keys
      rw [hreg]
      exact List.not_mem_nil
    have hdescriptor : .descriptor 3 ∉ held := by
      rw [hregistered.held]
      unfold Clients.Holds
      rw [hreg]
      exact List.not_mem_nil
    simp [Ledger.Fresh, Ledger.Act.Fresh, Ledger.Act.after, Resource.Chosen, hmemory, hdescriptor]
  | cons entry reg =>
    have hmem : entry ∈ clients.reg := by
      rw [hreg]
      exact List.mem_cons_self
    obtain ⟨ctx', _, _, hserves⟩ := hregistered.exists_attached hmem
    obtain ⟨hrc, hacts⟩ := @connect_again reg entry ctx ctx' hfree hserves
    refine ⟨({ ctx'.cfg with device := "/dev/ttyUSB0" },
      { sharedEnv with realpath := some entry.2.path }), ?_⟩
    change ((Call.connect 0 _ _).perform clients).rc = 0 ∧
      Ledger.Fresh Resource.Chosen held ((Call.connect 0 _ _).perform clients).acts
    rw [perform_connect hindex, hreg, hacts]
    refine ⟨hrc, ?_⟩
    simp [Ledger.Fresh, Ledger.Act.Fresh, Resource.Chosen]

theorem client_lawful {others : Nat} (hothers : others + 1 < 2 ^ 32)
    : (lifecycle others).Lawful Resource.Chosen (Clients.Accounted others) := by
  constructor
  . refine ⟨Clients.registered_of_free ?_, List.length_replicate⟩
    intro ctx hmem
    rw [List.eq_of_mem_replicate hmem]
    rfl
  . intro clients held arg hholds _
    exact perform_leads hothers (.connect 0 arg.1 arg.2) hholds
  . intro clients arg hstarted
    apply Iff.trans (connect_started arg.1 arg.2 (not_connected hstarted))
    exact (started_iff others _).symm
  . intro clients arg hstarted
    exact connect_busy ((started_iff others clients).mp hstarted) arg.1 arg.2
  . intro clients held call hholds
    exact perform_leads hothers call.other hholds
  . intro clients held hholds _
    exact perform_leads hothers (.disconnect 0) hholds
  . intro clients held hholds
    apply Bool.eq_false_of_not_eq_true
    intro hstarted
    exact disconnect_stopped hholds.1 ((started_iff others _).mp hstarted)
  . intro clients hstarted
    exact disconnect_idle (not_connected hstarted)
  . intro clients held hholds hstarted resource howes
    exact not_owed hholds.1 hstarted howes
  . intro clients held hholds hstarted
    exact client_ready hholds hstarted

end Client

end Rtu
