import Mathlib.Data.Finset.Insert
import ModbusProtocol.Data.Records
import ModbusProtocol.Rtu.Impl.Clients

/-!
This module contains the invariant of the registry of shared buses over any sequence of connecting and
disconnecting: one record for a path, counted by the contexts that point to it, and held open for them.
-/

open Posix

namespace Rtu.Client

open Ledger (Passing Carries)

-- What the context uses of the record, and the settings that it has asked for.
structure SharedBus.Serves (bus : SharedBus) (ctx : ClientCtx) : Prop where
  fd : ctx.fd = bus.fd
  baudRate : bus.baudRate = effectiveBaudRate ctx.cfg.baudRate
  dataBits : bus.dataBits = effectiveDataBits ctx.cfg.dataBits
  stopBits : bus.stopBits = effectiveStopBits ctx.cfg.stopBits
  parity : bus.parity = ctx.cfg.parity
  rs485Mode : bus.rs485Mode = ctx.cfg.rs485Mode

namespace Clients

def Connected (clients : Clients) (index : Nat) : Prop :=
  ∃ ctx, clients.ctxs[index]? = some ctx ∧ ctx.initialized = true

def Holds (clients : Clients) : Resource → Prop
  | .descriptor fd => fd ∈ clients.reg.map fun entry => entry.2.fd
  | .memory bus | .mutex (.memory bus) => bus ∈ Records.keys clients.reg
  | .mutex (.context index) => clients.Connected index
  | .thread _ => False

structure Registered (clients : Clients) (held : Finset Resource) : Prop where
  addresses : (Records.keys clients.reg).Nodup
  paths : (clients.reg.map fun entry => entry.2.path).Nodup
  descriptors : (clients.reg.map fun entry => entry.2.fd).Nodup
  descriptors_nonneg : ∀ entry ∈ clients.reg, 0 ≤ entry.2.fd
  counted : ∀ entry ∈ clients.reg, entry.2.refcnt.toNat = clients.attached entry.1
  refcnt_pos : ∀ entry ∈ clients.reg, 0 < entry.2.refcnt
  led : ∀ ctx ∈ clients.ctxs, ctx.initialized = true
    → ∃ entry ∈ clients.reg, ctx.sharedBus = some entry.1 ∧ entry.2.Serves ctx
  held : ∀ resource, resource ∈ held ↔ clients.Holds resource

end Clients

def SharedBus.recount (g : UInt32 → UInt32) (bus : SharedBus) : SharedBus :=
  { bus with refcnt := g bus.refcnt }

-- One reference more, and one less.
def counted (refcnt : UInt32) : UInt32 :=
  refcnt + 1

def uncounted (refcnt : UInt32) : UInt32 :=
  if refcnt > 0 then refcnt - 1 else refcnt

theorem updateBus_eq (reg : Registry) (bus : Address) (f : SharedBus → SharedBus)
    : updateBus reg bus f = Records.update reg bus f := by
  rfl

theorem getBus_eq (reg : Registry) (bus : Address)
    : getBus reg bus = Records.get reg bus := by
  rfl

theorem unlinkBus_eq (reg : Registry) (bus : Address)
    : unlinkBus reg bus = Records.unlink reg bus := by
  rfl

theorem openPort_cases (serial : SerialConfig) (env : OpenEnv)
    : 0 ≤ env.fd ∧ openPort serial env = (some env.fd, [.acquire (.descriptor env.fd)]) ∨
        ∃ acts, (∀ held, Passing Resource.Chosen held acts) ∧ openPort serial env = (none, acts) := by
  unfold openPort
  split
  . exact .inr ⟨[], fun _ => .nil, rfl⟩
  split
  . exact .inr ⟨[], fun _ => .nil, rfl⟩
  next hfd =>
    split
    . refine .inr ⟨_, ?_, rfl⟩
      intro held
      apply Passing.once
      intro hchosen
      exact absurd trivial hchosen
    . exact .inl ⟨Int.not_lt.mp hfd, rfl⟩

theorem closePort_of_nonneg {fd : Int} (h : 0 ≤ fd)
    : closePort fd = (-1, [.release (.descriptor fd)]) := by
  apply if_pos h

inductive Opening (reg : Registry) (key : String) (serial : SerialConfig) (env : ConnectEnv)
    : Option (Address × SharedBus) × Registry × List Act → Prop where
  | failed {acts : List Act} (hacts : ∀ held, Passing Resource.Chosen held acts)
      : Opening reg key serial env (none, reg, acts)
  | opened {bus : Address} {fd : Int} (hcalloc : env.calloc = some bus) (hfd : 0 ≤ fd)
      : Opening reg key serial env (some (bus, newBus key serial fd), (bus, newBus key serial fd) :: reg,
          [.acquire (.memory bus), .acquire (.descriptor fd), .acquire (.mutex (.memory bus))])

theorem openBus_opening (reg : Registry) (key : String) (serial : SerialConfig) (env : ConnectEnv)
    : Opening reg key serial env (openBus reg key serial env) := by
  have hmemory : ∀ (bus : Address) (held : Finset Resource),
      ¬Resource.Chosen (.memory bus) → .memory bus ∉ held := by
    intro _ _ hchosen
    exact absurd trivial hchosen
  unfold openBus
  split
  . apply Opening.failed
    intro held
    exact .nil
  next bus hcalloc =>
    obtain ⟨hfd, heq⟩ | ⟨acts, hpassing, heq⟩ := openPort_cases serial env.port
    . rw [heq]
      dsimp only
      split
      . rw [closePort_of_nonneg hfd]
        apply Opening.failed
        intro held
        apply @Passing.bracket _ _ _ _ _ [.acquire (.descriptor env.port.fd),
          .release (.descriptor env.port.fd)] (hmemory bus held)
        intro _
        apply Passing.once
        intro hchosen
        exact absurd trivial hchosen
      . exact Opening.opened hcalloc hfd
    . rw [heq]
      apply Opening.failed
      intro held
      apply Passing.bracket (hmemory bus held)
      intro _
      apply hpassing

inductive Attaching (reg : Registry) (serial : SerialConfig) (env : ConnectEnv)
    : Option (Address × SharedBus) × Registry × List Act → Prop where
  | refused {acts : List Act} (hacts : ∀ held, Passing Resource.Chosen held acts)
      : Attaching reg serial env (none, reg, acts)
  | joined {entry : Address × SharedBus} (hmem : entry ∈ reg)
      (hmatch : busSettingsMatch entry.2 serial = true)
      : Attaching reg serial env (some entry, Records.update reg entry.1 (SharedBus.recount counted), [])
  | opened {key : String} (hkey : key ∉ reg.map fun entry => entry.2.path) {bus : Address}
      {fd : Int} (hcalloc : env.calloc = some bus) (hfd : 0 ≤ fd)
      : Attaching reg serial env (some (bus, newBus key serial fd),
          Records.update ((bus, newBus key serial fd) :: reg) bus (SharedBus.recount counted),
          [.acquire (.memory bus), .acquire (.descriptor fd), .acquire (.mutex (.memory bus))])

theorem sharedBusAttach_attaching (reg : Registry) (serial : SerialConfig) (env : ConnectEnv)
    : Attaching reg serial env (sharedBusAttach reg serial env) := by
  have hnil : ∀ held, Passing Resource.Chosen held [] := fun _ => .nil
  unfold sharedBusAttach
  cases resolveBusKey serial.device env with
  | none => exact .refused hnil
  | some key =>
    dsimp only
    cases hfind : findBus reg key with
    | some entry =>
      have hmem : entry ∈ reg := List.mem_of_find?_eq_some hfind
      dsimp only
      by_cases hmatch : busSettingsMatch entry.2 serial = true
      . rw [if_pos hmatch]
        exact .joined hmem hmatch
      . rw [if_neg hmatch]
        exact .refused hnil
    | none =>
      have hkey : key ∉ reg.map fun entry => entry.2.path := by
        intro hmem
        obtain ⟨entry, hmem, heq⟩ := List.mem_map.mp hmem
        unfold findBus at hfind
        rw [List.find?_eq_none] at hfind
        exact hfind entry hmem (decide_eq_true heq)
      have hopening := openBus_opening reg key serial env
      dsimp only
      generalize openBus reg key serial env = opened at hopening ⊢
      cases hopening with
      | failed hacts => exact .refused hacts
      | opened hcalloc hfd => exact .opened hkey hcalloc hfd

-- The context after it has been connected to the record.
def ClientCtx.joined (cfg : ClientConfig) (entry : Address × SharedBus) : ClientCtx :=
  ⟨entry.2.fd, some entry.1, true, cfg⟩

inductive Connecting (env : ConnectEnv) (reg : Registry) (index : Nat) (ctx : ClientCtx)
    (cfg : ClientConfig)
    : Connected → Prop where
  | refused {ctx' : ClientCtx} {acts : List Act}
      (hctx : ctx' = ctx ∨ ctx.initialized = false ∧ ctx'.initialized = false)
      (hacts : ∀ held, (ctx.initialized = false → .mutex (.context index) ∉ held)
        → Passing Resource.Chosen held acts)
      : Connecting env reg index ctx cfg ⟨-1, ctx', reg, acts⟩
  | joined {entry : Address × SharedBus} (hfree : ctx.initialized = false) (hmem : entry ∈ reg)
      (hmatch : busSettingsMatch entry.2 cfg.serial = true)
      : Connecting env reg index ctx cfg ⟨0, ClientCtx.joined cfg entry,
          Records.update reg entry.1 (SharedBus.recount counted), [.acquire (.mutex (.context index))]⟩
  | opened {key : String} (hfree : ctx.initialized = false)
      (hkey : key ∉ reg.map fun entry => entry.2.path) {bus : Address} {fd : Int}
      (hcalloc : env.calloc = some bus) (hfd : 0 ≤ fd)
      : Connecting env reg index ctx cfg ⟨0, ClientCtx.joined cfg (bus, newBus key cfg.serial fd),
          Records.update ((bus, newBus key cfg.serial fd) :: reg) bus (SharedBus.recount counted),
          [.acquire (.mutex (.context index)), .acquire (.memory bus), .acquire (.descriptor fd),
            .acquire (.mutex (.memory bus))]⟩

theorem connect_connecting (env : ConnectEnv) (reg : Registry) (index : Nat) (ctx : ClientCtx)
    (cfg : ClientConfig)
    : Connecting env reg index ctx cfg (connect env reg index ctx cfg) := by
  unfold connect
  split
  . apply Connecting.refused (.inl rfl)
    intro _ _
    exact .nil
  split
  . apply Connecting.refused (.inl rfl)
    intro _ _
    exact .nil
  next hinit =>
    have hfree : ctx.initialized = false := Bool.eq_false_of_not_eq_true hinit
    dsimp only
    split
    . apply Connecting.refused (.inr ⟨hfree, rfl⟩)
      intro _ _
      exact .nil
    . have hattaching := sharedBusAttach_attaching reg cfg.serial env
      generalize sharedBusAttach reg cfg.serial env = attached at hattaching ⊢
      cases hattaching with
      | refused hacts =>
        apply Connecting.refused (.inr ⟨hfree, rfl⟩)
        intro held hheld
        apply Passing.bracket (fun _ => hheld hfree)
        intro _
        apply hacts
      | joined hmem hmatch => exact .joined hfree hmem hmatch
      | opened hkey hcalloc hfd => exact .opened hfree hkey hcalloc hfd

-- The context after it has been disconnected.
def ClientCtx.left (ctx : ClientCtx) : ClientCtx :=
  { ctx with sharedBus := none, fd := -1, initialized := false }

inductive Disconnecting (reg : Registry) (index : Nat) (ctx : ClientCtx)
    : ClientCtx × Registry × List Act → Prop where
  | idle (hfree : ctx.initialized = false)
      : Disconnecting reg index ctx (ctx, reg, [])
  | left {entry : Address × SharedBus} (hctx : ctx.attachedTo entry.1 = true) (hmem : entry ∈ reg)
      (hmore : 1 < entry.2.refcnt)
      : Disconnecting reg index ctx (ctx.left, Records.update reg entry.1 (SharedBus.recount uncounted),
          [.use (.mutex (.context index)), .release (.mutex (.context index))])
  | last {entry : Address × SharedBus} (hctx : ctx.attachedTo entry.1 = true) (hmem : entry ∈ reg)
      (hone : entry.2.refcnt = 1)
      : Disconnecting reg index ctx (ctx.left, Records.unlink reg entry.1,
          [.use (.mutex (.context index)), .release (.descriptor entry.2.fd),
            .release (.mutex (.memory entry.1)), .release (.memory entry.1),
            .release (.mutex (.context index))])

theorem attachedTo_iff (ctx : ClientCtx) (bus : Address)
    : ctx.attachedTo bus = true ↔ ctx.initialized = true ∧ ctx.sharedBus = some bus := by
  apply decide_eq_true_iff

theorem uncounted_of_pos {refcnt : UInt32} (h : 0 < refcnt)
    : uncounted refcnt = refcnt - 1 := by
  apply if_pos h

theorem recount_uncounted (bus : SharedBus)
    : bus.recount uncounted
        =
      if bus.refcnt > 0 then { bus with refcnt := bus.refcnt - 1 } else bus := by
  unfold SharedBus.recount uncounted
  split
  . rfl
  . rfl

theorem sharedBusDetach_eq {reg : Registry} (hkeys : (Records.keys reg).Nodup)
    {entry : Address × SharedBus} (hmem : entry ∈ reg) (hpos : 0 < entry.2.refcnt)
    (hfd : 0 ≤ entry.2.fd)
    : sharedBusDetach reg entry.1
        =
      if entry.2.refcnt = 1 then
        (Records.unlink reg entry.1, [.release (.descriptor entry.2.fd),
          .release (.mutex (.memory entry.1)), .release (.memory entry.1)])
      else
        (Records.update reg entry.1 (SharedBus.recount uncounted), []) := by
  have hupdate : (entry.1, entry.2.recount uncounted)
      ∈ Records.update reg entry.1 (SharedBus.recount uncounted) := by
    rw [Records.mem_update]
    exact .inr ⟨rfl, entry.2, hmem, rfl⟩
  have hkeys' : (Records.keys (Records.update reg entry.1 (SharedBus.recount uncounted))).Nodup := by
    rw [Records.keys_update]
    exact hkeys
  have hget := Records.get_eq_some hkeys' hupdate
  have hzero : entry.2.refcnt - 1 = 0 ↔ entry.2.refcnt = 1 := by grind
  unfold sharedBusDetach closePort
  dsimp only
  rw [← funext recount_uncounted, updateBus_eq, getBus_eq, unlinkBus_eq, hget]
  dsimp only [SharedBus.recount]
  rw [uncounted_of_pos hpos, if_pos hfd]
  by_cases hone : entry.2.refcnt = 1
  . rw [if_pos (hzero.mpr hone), if_pos hone, Records.unlink_update hkeys]
    rfl
  . rw [if_neg (mt hzero.mp hone), if_neg hone]

theorem Clients.Registered.disconnecting {clients : Clients} {held : Finset Resource}
    (h : clients.Registered held) {ctx : ClientCtx} (hctx : ctx ∈ clients.ctxs) (index : Nat)
    : Disconnecting clients.reg index ctx (disconnect clients.reg index ctx) := by
  unfold disconnect
  cases hinit : ctx.initialized with
  | false => exact .idle hinit
  | true =>
    obtain ⟨entry, hmem, hbus, _⟩ := h.led ctx hctx hinit
    have hattached := (attachedTo_iff ctx entry.1).mpr ⟨hinit, hbus⟩
    have hpos := h.refcnt_pos entry hmem
    rw [hbus]
    dsimp only
    rw [sharedBusDetach_eq h.addresses hmem hpos (h.descriptors_nonneg entry hmem)]
    by_cases hone : entry.2.refcnt = 1
    . rw [if_pos hone]
      exact .last hattached hmem hone
    . rw [if_neg hone]
      apply Disconnecting.left hattached hmem
      have hone' : entry.2.refcnt.toNat ≠ 1 := fun heq => hone (UInt32.toNat_inj.mp heq)
      rw [UInt32.lt_iff_toNat_lt] at hpos ⊢
      change 0 < entry.2.refcnt.toNat at hpos
      change 1 < entry.2.refcnt.toNat
      omega

theorem SharedBus.Serves.recount {bus : SharedBus} {ctx : ClientCtx} (h : bus.Serves ctx)
    (g : UInt32 → UInt32)
    : (bus.recount g).Serves ctx := by
  exact ⟨h.fd, h.baudRate, h.dataBits, h.stopBits, h.parity, h.rs485Mode⟩

theorem serves_joined {cfg : ClientConfig} {entry : Address × SharedBus}
    (h : busSettingsMatch entry.2 cfg.serial = true)
    : entry.2.Serves (ClientCtx.joined cfg entry) := by
  obtain ⟨hbaudRate, hdataBits, hstopBits, hparity, hrs485Mode⟩ := of_decide_eq_true h
  exact ⟨rfl, hbaudRate, hdataBits, hstopBits, hparity, hrs485Mode⟩

theorem not_attachedTo {ctx : ClientCtx} (h : ctx.initialized = false) (bus : Address)
    : ctx.attachedTo bus = false := by
  unfold ClientCtx.attachedTo
  rw [h]
  simp

namespace Clients

variable {reg reg' : Registry} {ctxs : List ClientCtx} {index : Nat} {ctx : ClientCtx}

theorem attached_set (reg reg' : Registry) (h : ctxs[index]? = some ctx) (ctx' : ClientCtx) (bus : Address)
    : attached ⟨reg', ctxs.set index ctx'⟩ bus + (if ctx.attachedTo bus then 1 else 0)
        =
      attached ⟨reg, ctxs⟩ bus + (if ctx'.attachedTo bus then 1 else 0) := by
  obtain ⟨hlt, heq⟩ := List.getElem?_eq_some_iff.mp h
  have hle := List.boole_getElem_le_countP (p := fun ctx => ClientCtx.attachedTo ctx bus) hlt
  unfold attached
  rw [List.countP_set hlt]
  rw [heq] at hle ⊢
  dsimp only at hle ⊢
  omega

theorem connected_set (reg : Registry) (h : ctxs[index]? = some ctx) (ctx' : ClientCtx) (i : Nat)
    : Connected ⟨reg', ctxs.set index ctx'⟩ i
        ↔
      if i = index then ctx'.initialized = true else Connected ⟨reg, ctxs⟩ i := by
  obtain ⟨hlt, _⟩ := List.getElem?_eq_some_iff.mp h
  unfold Connected
  dsimp only
  by_cases hi : i = index
  . rw [if_pos hi, hi, List.getElem?_set_self hlt]
    simp
  . rw [if_neg hi, List.getElem?_set_ne (fun heq => hi heq.symm)]

theorem connected_iff (h : ctxs[index]? = some ctx)
    : Connected ⟨reg, ctxs⟩ index ↔ ctx.initialized = true := by
  unfold Connected
  dsimp only
  rw [h]
  simp

theorem attached_set_of_ne (h : ctxs[index]? = some ctx) {ctx' : ClientCtx} {bus : Address}
    (hbus : ctx'.attachedTo bus = ctx.attachedTo bus)
    : attached ⟨reg', ctxs.set index ctx'⟩ bus = attached ⟨reg, ctxs⟩ bus := by
  have hset := attached_set reg reg' h ctx' bus
  rw [hbus] at hset
  omega

namespace Registered

variable {held held' : Finset Resource}

-- The count of a record changes as one context turns to it or leaves it.
theorem recount (h : Registered ⟨reg, ctxs⟩ held) {entry : Address × SharedBus} (hmem : entry ∈ reg)
    (hindex : ctxs[index]? = some ctx) {ctx' : ClientCtx} {g : UInt32 → UInt32}
    (hpos : 0 < g entry.2.refcnt)
    (hcount : (g entry.2.refcnt).toNat = attached ⟨reg, ctxs.set index ctx'⟩ entry.1)
    (hother : ∀ bus, bus ≠ entry.1 → ctx'.attachedTo bus = ctx.attachedTo bus)
    (hled : ctx'.initialized = true → ctx'.sharedBus = some entry.1 ∧ entry.2.Serves ctx')
    (hheld : ∀ resource, resource ∈ held' ↔ Holds ⟨reg, ctxs.set index ctx'⟩ resource)
    : Registered ⟨Records.update reg entry.1 (SharedBus.recount g), ctxs.set index ctx'⟩ held' := by
  have hof : ∀ entry' ∈ Records.update reg entry.1 (SharedBus.recount g),
      entry'.1 ≠ entry.1 ∧ entry' ∈ reg ∨ entry' = (entry.1, entry.2.recount g) := by
    intro entry' hmem'
    obtain h' | ⟨hkey, bus, hbus, heq⟩ := Records.mem_update.mp hmem'
    . exact .inl h'
    . have hsame := Records.eq_of_key_eq h.addresses hbus hmem rfl
      rw [← hsame]
      exact .inr (Prod.ext hkey heq)
  have hfds : (Records.update reg entry.1 (SharedBus.recount g)).map (fun entry => entry.2.fd)
      = reg.map fun entry => entry.2.fd := Records.map_update fun _ _ => rfl
  have hpaths : (Records.update reg entry.1 (SharedBus.recount g)).map (fun entry => entry.2.path)
      = reg.map fun entry => entry.2.path := Records.map_update fun _ _ => rfl
  have hkeys : Records.keys (Records.update reg entry.1 (SharedBus.recount g)) = Records.keys reg :=
    Records.keys_update _
  constructor
  . rw [hkeys]
    exact h.addresses
  . rw [hpaths]
    exact h.paths
  . rw [hfds]
    exact h.descriptors
  . intro entry' hmem'
    obtain ⟨_, hold⟩ | heq := hof entry' hmem'
    . exact h.descriptors_nonneg entry' hold
    . rw [heq]
      exact h.descriptors_nonneg entry hmem
  . intro entry' hmem'
    obtain ⟨hne, hold⟩ | heq := hof entry' hmem'
    . rw [attached_set_of_ne hindex (hother entry'.1 hne)]
      exact h.counted entry' hold
    . rw [heq]
      exact hcount
  . intro entry' hmem'
    obtain ⟨_, hold⟩ | heq := hof entry' hmem'
    . exact h.refcnt_pos entry' hold
    . rw [heq]
      exact hpos
  . intro c hc hinit
    have hupdate : (entry.1, entry.2.recount g)
        ∈ Records.update reg entry.1 (SharedBus.recount g) := by
      rw [Records.mem_update]
      exact .inr ⟨rfl, entry.2, hmem, rfl⟩
    cases List.mem_or_eq_of_mem_set hc with
    | inl hc =>
      obtain ⟨entry', hmem', hbus, hserves⟩ := h.led c hc hinit
      by_cases hkey : entry'.1 = entry.1
      . have hsame := Records.eq_of_key_eq h.addresses hmem' hmem hkey
        subst hsame
        exact ⟨_, hupdate, hbus, hserves.recount g⟩
      . refine ⟨entry', ?_, hbus, hserves⟩
        rw [Records.mem_update]
        exact .inl ⟨hkey, hmem'⟩
    | inr heq =>
      subst heq
      obtain ⟨hbus, hserves⟩ := hled hinit
      exact ⟨_, hupdate, hbus, hserves.recount g⟩
  . intro resource
    rw [hheld]
    cases resource with
    | descriptor fd =>
      unfold Holds
      rw [hfds]
    | memory bus =>
      unfold Holds
      rw [hkeys]
    | mutex owner =>
      cases owner with
      | context i => rfl
      | memory bus =>
        unfold Holds
        rw [hkeys]
    | thread owner => rfl

-- A record for a context that is the first to be connected to it.
theorem cons (h : Registered ⟨reg, ctxs⟩ held) {bus : Address} (record : SharedBus)
    (hindex : ctxs[index]? = some ctx) {ctx' : ClientCtx} (hbus : bus ∉ Records.keys reg)
    (hpath : record.path ∉ reg.map fun entry => entry.2.path)
    (hfd : record.fd ∉ reg.map fun entry => entry.2.fd) (hnonneg : 0 ≤ record.fd)
    (hone : record.refcnt = 1) (hfree : ctx.initialized = false)
    (hled : ctx'.sharedBus = some bus ∧ record.Serves ctx') (hinit : ctx'.initialized = true)
    (hheld : ∀ resource, resource ∈ held'
      ↔ Holds ⟨(bus, record) :: reg, ctxs.set index ctx'⟩ resource)
    : Registered ⟨(bus, record) :: reg, ctxs.set index ctx'⟩ held' := by
  have hnone : attached ⟨reg, ctxs⟩ bus = 0 := by
    apply List.countP_eq_zero.mpr
    intro c hc hattached
    obtain ⟨hinit, hbus'⟩ := (attachedTo_iff c bus).mp hattached
    obtain ⟨entry, hmem, hentry, _⟩ := h.led c hc hinit
    rw [hbus'] at hentry
    cases hentry
    exact hbus (Records.mem_keys hmem)
  have hother : ∀ entry ∈ reg, ctx'.attachedTo entry.1 = ctx.attachedTo entry.1 := by
    intro entry hmem
    rw [not_attachedTo hfree]
    apply Bool.eq_false_of_not_eq_true
    rw [attachedTo_iff, hled.1]
    intro ⟨_, heq⟩
    cases heq
    exact hbus (Records.mem_keys hmem)
  have hset := attached_set reg ((bus, record) :: reg) hindex ctx' bus
  rw [hnone, not_attachedTo hfree, (attachedTo_iff ctx' bus).mpr ⟨hinit, hled.1⟩] at hset
  constructor
  . exact List.nodup_cons.mpr ⟨hbus, h.addresses⟩
  . exact List.nodup_cons.mpr ⟨hpath, h.paths⟩
  . exact List.nodup_cons.mpr ⟨hfd, h.descriptors⟩
  . exact List.forall_mem_cons.mpr ⟨hnonneg, h.descriptors_nonneg⟩
  . intro entry hmem
    cases List.mem_cons.mp hmem with
    | inl heq =>
      rw [heq, hone]
      exact hset.symm
    | inr hmem =>
      rw [attached_set_of_ne hindex (hother entry hmem)]
      exact h.counted entry hmem
  . intro entry hmem
    cases List.mem_cons.mp hmem with
    | inl heq =>
      rw [heq, hone]
      exact Nat.one_pos
    | inr hmem => exact h.refcnt_pos entry hmem
  . intro c hc hc'
    cases List.mem_or_eq_of_mem_set hc with
    | inl hc =>
      obtain ⟨entry, hmem, hentry⟩ := h.led c hc hc'
      exact ⟨entry, List.mem_cons_of_mem _ hmem, hentry⟩
    | inr heq =>
      subst heq
      exact ⟨(bus, record), List.mem_cons_self, hled⟩
  . exact hheld

-- The record of a context that is the last to leave it is taken out.
theorem unlink (h : Registered ⟨reg, ctxs⟩ held) {entry : Address × SharedBus} (hmem : entry ∈ reg)
    (hindex : ctxs[index]? = some ctx) {ctx' : ClientCtx} (hctx : ctx.attachedTo entry.1 = true)
    (hone : entry.2.refcnt = 1) (hfree : ctx'.initialized = false)
    (hheld : ∀ resource, resource ∈ held'
      ↔ Holds ⟨Records.unlink reg entry.1, ctxs.set index ctx'⟩ resource)
    : Registered ⟨Records.unlink reg entry.1, ctxs.set index ctx'⟩ held' := by
  have hsublist : (Records.unlink reg entry.1).Sublist reg := List.eraseP_sublist
  have hnone : attached ⟨reg, ctxs.set index ctx'⟩ entry.1 = 0 := by
    have hset := attached_set reg reg hindex ctx' entry.1
    rw [hctx, not_attachedTo hfree, ← h.counted entry hmem, hone] at hset
    exact Nat.succ.inj hset
  have hother : ∀ entry' ∈ Records.unlink reg entry.1,
      ctx'.attachedTo entry'.1 = ctx.attachedTo entry'.1 := by
    intro entry' hmem'
    obtain ⟨_, hne⟩ := (Records.mem_unlink h.addresses).mp hmem'
    have hbus := ((attachedTo_iff ctx entry.1).mp hctx).2
    rw [not_attachedTo hfree]
    symm
    apply Bool.eq_false_of_not_eq_true
    rw [attachedTo_iff, hbus]
    intro ⟨_, heq⟩
    exact hne (Option.some.inj heq).symm
  constructor
  . exact Records.keys_unlink h.addresses
  . exact (hsublist.map _).nodup h.paths
  . exact (hsublist.map _).nodup h.descriptors
  . intro entry' hmem'
    exact h.descriptors_nonneg entry' (hsublist.mem hmem')
  . intro entry' hmem'
    rw [attached_set_of_ne hindex (hother entry' hmem')]
    exact h.counted entry' (hsublist.mem hmem')
  . intro entry' hmem'
    exact h.refcnt_pos entry' (hsublist.mem hmem')
  . intro c hc hinit
    have hc' : c ∈ ctxs := by
      cases List.mem_or_eq_of_mem_set hc with
      | inl hc => exact hc
      | inr heq =>
        subst heq
        rw [hfree] at hinit
        contradiction
    obtain ⟨entry', hmem', hbus, hserves⟩ := h.led c hc' hinit
    refine ⟨entry', (Records.mem_unlink h.addresses).mpr ⟨hmem', ?_⟩, hbus, hserves⟩
    intro heq
    apply List.countP_eq_zero.mp hnone c hc
    rw [attachedTo_iff, hbus, heq]
    exact ⟨hinit, rfl⟩
  . exact hheld

-- A call that has been refused leaves the context as it was, or not connected as it was.
theorem same (h : Registered ⟨reg, ctxs⟩ held) (hindex : ctxs[index]? = some ctx) {ctx' : ClientCtx}
    (hctx : ctx' = ctx ∨ ctx.initialized = false ∧ ctx'.initialized = false)
    : Registered ⟨reg, ctxs.set index ctx'⟩ held := by
  cases hctx with
  | inl heq =>
    obtain ⟨hlt, hget⟩ := List.getElem?_eq_some_iff.mp hindex
    rw [heq, ← hget, List.set_getElem_self]
    exact h
  | inr hfree =>
    obtain ⟨hfree, hfree'⟩ := hfree
    refine ⟨h.addresses, h.paths, h.descriptors, h.descriptors_nonneg, ?_, h.refcnt_pos, ?_, ?_⟩
    . intro entry hmem
      have hother : ctx'.attachedTo entry.1 = ctx.attachedTo entry.1 := by
        rw [not_attachedTo hfree, not_attachedTo hfree']
      rw [attached_set_of_ne hindex hother]
      exact h.counted entry hmem
    . intro c hc hinit
      cases List.mem_or_eq_of_mem_set hc with
      | inl hc => exact h.led c hc hinit
      | inr heq =>
        rw [heq, hfree'] at hinit
        contradiction
    . intro resource
      rw [h.held]
      unfold Holds
      split
      . rfl
      . rfl
      . rfl
      next i =>
        rw [connected_set reg hindex]
        split
        next hi =>
          rw [hi, connected_iff hindex, hfree, hfree']
        . rfl
      . rfl

theorem mutex_free (h : Registered ⟨reg, ctxs⟩ held) (hindex : ctxs[index]? = some ctx)
    (hfree : ctx.initialized = false)
    : .mutex (.context index) ∉ held := by
  rw [h.held]
  intro hconnected
  have hinit := (connected_iff hindex).mp hconnected
  rw [hfree] at hinit
  contradiction

theorem counted_toNat {refcnt : UInt32} (h : refcnt.toNat + 1 < 2 ^ 32)
    : (Client.counted refcnt).toNat = refcnt.toNat + 1 := by
  unfold Client.counted
  rw [UInt32.toNat_add]
  apply Nat.mod_eq_of_lt h

theorem joined (h : Registered ⟨reg, ctxs⟩ held) (hindex : ctxs[index]? = some ctx)
    (hfree : ctx.initialized = false) {entry : Address × SharedBus} (hmem : entry ∈ reg)
    {cfg : ClientConfig} (hmatch : busSettingsMatch entry.2 cfg.serial = true)
    (hlimit : attached ⟨reg, ctxs.set index (ClientCtx.joined cfg entry)⟩ entry.1 < 2 ^ 32)
    : Registered ⟨Records.update reg entry.1 (SharedBus.recount Client.counted),
        ctxs.set index (ClientCtx.joined cfg entry)⟩ (insert (.mutex (.context index)) held) := by
  have hattached : (ClientCtx.joined cfg entry).attachedTo entry.1 = true := by
    rw [attachedTo_iff]
    exact ⟨rfl, rfl⟩
  have hset := attached_set reg reg hindex (ClientCtx.joined cfg entry) entry.1
  rw [hattached, not_attachedTo hfree, ← h.counted entry hmem] at hset
  change _ + 0 = entry.2.refcnt.toNat + 1 at hset
  have hcount := @counted_toNat entry.2.refcnt (by omega)
  apply h.recount hmem hindex
  . rw [UInt32.lt_iff_toNat_lt, hcount]
    apply Nat.succ_pos
  . omega
  . intro bus hbus
    rw [not_attachedTo hfree]
    apply Bool.eq_false_of_not_eq_true
    rw [attachedTo_iff]
    intro ⟨_, heq⟩
    exact hbus (Option.some.inj heq).symm
  . intro _
    exact ⟨rfl, serves_joined hmatch⟩
  . intro resource
    rw [Finset.mem_insert, h.held]
    unfold Holds
    split
    . simp
    . simp
    . simp
    next i =>
      rw [connected_set reg hindex]
      split
      next hi => simp [hi, ClientCtx.joined]
      next hi => simp [hi]
    . simp

theorem opened (h : Registered ⟨reg, ctxs⟩ held) (hindex : ctxs[index]? = some ctx)
    (hfree : ctx.initialized = false) {key : String} {cfg : ClientConfig}
    (hkey : key ∉ reg.map fun entry => entry.2.path) {bus : Address} {fd : Int} (hfd : 0 ≤ fd)
    (hmemory : .memory bus ∉ held) (hdescriptor : .descriptor fd ∉ held)
    : let ctx' := ClientCtx.joined cfg (bus, newBus key cfg.serial fd)
      Registered ⟨Records.update ((bus, newBus key cfg.serial fd) :: reg) bus
          (SharedBus.recount Client.counted), ctxs.set index ctx'⟩
        (insert (.mutex (.memory bus)) (insert (.descriptor fd) (insert (.memory bus)
          (insert (.mutex (.context index)) held)))) := by
  rw [h.held] at hmemory hdescriptor
  rw [Records.update_cons_of_notMem hmemory]
  apply h.cons ((newBus key cfg.serial fd).recount Client.counted) hindex hmemory hkey hdescriptor hfd
    rfl hfree ⟨rfl, ⟨rfl, rfl, rfl, rfl, rfl, rfl⟩⟩ rfl
  intro resource
  rw [Finset.mem_insert, Finset.mem_insert, Finset.mem_insert, Finset.mem_insert, h.held]
  unfold Holds
  split
  . simp [SharedBus.recount, newBus]
  . simp [Records.keys]
  . simp [Records.keys]
  next i =>
    rw [connected_set reg hindex]
    split
    next hi => simp [hi, ClientCtx.joined]
    next hi => simp [hi]
  . simp

theorem uncounted_toNat {refcnt : UInt32} (h : 1 < refcnt)
    : (uncounted refcnt).toNat = refcnt.toNat - 1 := by
  have hone : (1 : UInt32) ≤ refcnt := UInt32.le_of_lt h
  rw [uncounted_of_pos (UInt32.lt_of_lt_of_le (by decide) hone), UInt32.toNat_sub_of_le _ _ hone]
  rfl

theorem left (h : Registered ⟨reg, ctxs⟩ held) (hindex : ctxs[index]? = some ctx)
    {entry : Address × SharedBus} (hmem : entry ∈ reg) (hctx : ctx.attachedTo entry.1 = true)
    (hmore : 1 < entry.2.refcnt)
    : Registered ⟨Records.update reg entry.1 (SharedBus.recount uncounted), ctxs.set index ctx.left⟩
        (held.erase (.mutex (.context index))) := by
  have hset := attached_set reg reg hindex ctx.left entry.1
  rw [hctx, not_attachedTo rfl, ← h.counted entry hmem] at hset
  change _ + 1 = entry.2.refcnt.toNat + 0 at hset
  have hcount := uncounted_toNat hmore
  have hmore' : 1 < entry.2.refcnt.toNat := UInt32.lt_iff_toNat_lt.mp hmore
  apply h.recount hmem hindex
  . rw [UInt32.lt_iff_toNat_lt, hcount]
    exact Nat.sub_pos_of_lt hmore'
  . omega
  . intro bus hbus
    rw [not_attachedTo rfl]
    symm
    apply Bool.eq_false_of_not_eq_true
    rw [attachedTo_iff, ((attachedTo_iff ctx entry.1).mp hctx).2]
    intro ⟨_, heq⟩
    exact hbus (Option.some.inj heq).symm
  . intro hinit
    contradiction
  . intro resource
    rw [Finset.mem_erase, h.held]
    unfold Holds
    split
    . simp
    . simp
    . simp
    next i =>
      rw [connected_set reg hindex]
      split
      next hi => simp [hi, ClientCtx.left]
      next hi => simp [hi]
    . simp

theorem last (h : Registered ⟨reg, ctxs⟩ held) (hindex : ctxs[index]? = some ctx)
    {entry : Address × SharedBus} (hmem : entry ∈ reg) (hctx : ctx.attachedTo entry.1 = true)
    (hone : entry.2.refcnt = 1)
    : Registered ⟨Records.unlink reg entry.1, ctxs.set index ctx.left⟩
        ((((held.erase (.descriptor entry.2.fd)).erase (.mutex (.memory entry.1))).erase
          (.memory entry.1)).erase (.mutex (.context index))) := by
  have hkeys : ∀ bus, bus ∈ Records.keys (Records.unlink reg entry.1)
      ↔ bus ∈ Records.keys reg ∧ bus ≠ entry.1 := by
    intro bus
    exact Records.mem_map_unlink h.addresses h.addresses hmem
  have hfds : ∀ fd, fd ∈ (Records.unlink reg entry.1).map (fun entry => entry.2.fd)
      ↔ fd ∈ reg.map (fun entry => entry.2.fd) ∧ fd ≠ entry.2.fd := by
    intro fd
    exact Records.mem_map_unlink h.addresses h.descriptors hmem
  apply h.unlink hmem hindex hctx hone rfl
  intro resource
  rw [Finset.mem_erase, Finset.mem_erase, Finset.mem_erase, Finset.mem_erase, h.held]
  unfold Holds
  split
  . rw [hfds]
    simp [and_comm]
  . rw [hkeys]
    simp [and_comm]
  . rw [hkeys]
    simp [and_comm]
  next i =>
    rw [connected_set reg hindex]
    split
    next hi => simp [hi, ClientCtx.left]
    next hi => simp [hi]
  . simp

theorem connecting (h : Registered ⟨reg, ctxs⟩ held) (hindex : ctxs[index]? = some ctx)
    {env : ConnectEnv} {cfg : ClientConfig} {connected : Client.Connected}
    (hconnecting : Connecting env reg index ctx cfg connected)
    (hfresh : Ledger.Fresh Resource.Chosen held connected.acts)
    (hlimit : ∀ bus, attached ⟨connected.reg, ctxs.set index connected.ctx⟩ bus < 2 ^ 32)
    : Ledger.Owned Resource.Chosen held connected.acts ∧
      Registered ⟨connected.reg, ctxs.set index connected.ctx⟩ (Ledger.after held connected.acts) := by
  cases hconnecting with
  | refused hctx hacts =>
    have hcarries := (hacts held (h.mutex_free hindex)).carries
    rw [hcarries.after hfresh]
    exact ⟨hcarries.owned hfresh, h.same hindex hctx⟩
  | joined hfree hmem hmatch =>
    have hmutex := h.mutex_free hindex hfree
    exact ⟨⟨fun _ => hmutex, trivial⟩, h.joined hindex hfree hmem hmatch (hlimit _)⟩
  | @opened key hfree hkey bus fd _ hfd =>
    obtain ⟨_, hmemory, hdescriptor, _, _⟩ := hfresh
    have hmutex := h.mutex_free hindex hfree
    have hmemory' : .memory bus ∉ held := fun hmem =>
      hmemory trivial (Finset.mem_insert_of_mem hmem)
    have hdescriptor' : .descriptor fd ∉ held := fun hmem =>
      hdescriptor trivial (Finset.mem_insert_of_mem (Finset.mem_insert_of_mem hmem))
    have hmutex' : .mutex (.memory bus) ∉ held := by
      rw [h.held] at hmemory' ⊢
      exact hmemory'
    refine ⟨⟨fun _ => hmutex, absurd trivial, absurd trivial, fun _ => ?_, trivial⟩, ?_⟩
    . simp [Ledger.Act.after, hmutex']
    . exact h.opened hindex hfree hkey hfd hmemory' hdescriptor'

theorem disconnecting_after (h : Registered ⟨reg, ctxs⟩ held) (hindex : ctxs[index]? = some ctx)
    {disconnected : ClientCtx × Registry × List Act}
    (hdisconnecting : Disconnecting reg index ctx disconnected)
    : Ledger.Owned Resource.Chosen held disconnected.2.2 ∧
      Registered ⟨disconnected.2.1, ctxs.set index disconnected.1⟩
        (Ledger.after held disconnected.2.2) := by
  cases hdisconnecting with
  | idle hfree => exact ⟨trivial, h.same hindex (.inl rfl)⟩
  | left hctx hmem hmore =>
    have hmutex : .mutex (.context index) ∈ held := by
      rw [h.held]
      exact (connected_iff hindex).mpr ((attachedTo_iff _ _).mp hctx).1
    exact ⟨⟨hmutex, hmutex, trivial⟩, h.left hindex hmem hctx hmore⟩
  | @last entry hctx hmem hone =>
    have hmutex : .mutex (.context index) ∈ held := by
      rw [h.held]
      exact (connected_iff hindex).mpr ((attachedTo_iff _ _).mp hctx).1
    have hdescriptor : .descriptor entry.2.fd ∈ held := by
      rw [h.held]
      exact List.mem_map_of_mem hmem
    have hmutex' : .mutex (.memory entry.1) ∈ held := by
      rw [h.held]
      exact Records.mem_keys hmem
    have hmemory : .memory entry.1 ∈ held := by
      rw [h.held]
      exact Records.mem_keys hmem
    refine ⟨⟨hmutex, hdescriptor, ?_, ?_, ?_, trivial⟩, h.last hindex hmem hctx hone⟩
    . simp [Ledger.Act.after, Ledger.Act.Owned, hmutex']
    . simp [Ledger.Act.after, Ledger.Act.Owned, hmemory]
    . simp [Ledger.Act.after, Ledger.Act.Owned, hmutex]

theorem perform {clients : Clients} (h : clients.Registered held) (call : Call)
    (hfresh : Ledger.Fresh Resource.Chosen held (call.perform clients).acts)
    (hlimit : ∀ bus, (call.perform clients).clients.attached bus < 2 ^ 32)
    : Ledger.Owned Resource.Chosen held (call.perform clients).acts ∧
      (call.perform clients).clients.Registered (Ledger.after held (call.perform clients).acts) := by
  cases call with
  | connect index cfg env =>
    unfold Call.perform at hfresh hlimit ⊢
    dsimp only at hfresh hlimit ⊢
    cases hindex : clients.ctxs[index]? with
    | none => exact ⟨trivial, h⟩
    | some ctx =>
      rw [hindex] at hfresh hlimit
      exact h.connecting hindex (connect_connecting env clients.reg index ctx cfg) hfresh hlimit
  | disconnect index =>
    unfold Call.perform at hfresh hlimit ⊢
    dsimp only at hfresh hlimit ⊢
    cases hindex : clients.ctxs[index]? with
    | none => exact ⟨trivial, h⟩
    | some ctx =>
      have hmem := List.mem_of_getElem? hindex
      exact h.disconnecting_after hindex (h.disconnecting hmem index)

theorem run {clients : Clients} (h : clients.Registered held) {calls : List Call}
    (hfresh : Ledger.Fresh Resource.Chosen held (clients.run calls).2)
    (hlimit : ∀ before, before <+: calls → ∀ bus, (clients.run before).1.attached bus < 2 ^ 32)
    : Ledger.Owned Resource.Chosen held (clients.run calls).2 ∧
      (clients.run calls).1.Registered (Ledger.after held (clients.run calls).2) := by
  induction calls generalizing clients held with
  | nil => exact ⟨trivial, h⟩
  | cons call calls ih =>
    unfold Clients.run at hfresh ⊢
    dsimp only at hfresh ⊢
    rw [Ledger.fresh_append] at hfresh
    rw [Ledger.owned_append, Ledger.after_append]
    have hone : [call] <+: call :: calls := by simp
    obtain ⟨howned, hafter⟩ := h.perform call hfresh.1 (hlimit [call] hone)
    obtain ⟨howned', hafter'⟩ := ih hafter hfresh.2 (by
      intro before hbefore
      exact hlimit (call :: before) ((List.prefix_cons_inj call).mpr hbefore))
    exact ⟨⟨howned, howned'⟩, hafter'⟩

end Registered

theorem registered_of_free (h : ∀ ctx ∈ ctxs, ctx.initialized = false)
    : Registered ⟨[], ctxs⟩ ∅ := by
  refine ⟨List.nodup_nil, List.nodup_nil, List.nodup_nil, ?_, ?_, ?_, ?_, ?_⟩
  . intro _ hmem
    contradiction
  . intro _ hmem
    contradiction
  . intro _ hmem
    contradiction
  . intro ctx hmem hinit
    rw [h ctx hmem] at hinit
    contradiction
  . intro resource
    constructor
    . intro hmem
      exact absurd hmem (Finset.notMem_empty resource)
    . intro hholds
      unfold Holds at hholds
      split at hholds
      . exact absurd hholds List.not_mem_nil
      . exact absurd hholds List.not_mem_nil
      . exact absurd hholds List.not_mem_nil
      . obtain ⟨ctx, hindex, hinit⟩ := hholds
        rw [h ctx (List.mem_of_getElem? hindex)] at hinit
        contradiction
      . exact hholds.elim

-- The context points to the record, and is the only one that does.
def OnlyOf (clients : Clients) (index : Nat) (bus : Address) : Prop :=
  (∃ ctx, clients.ctxs[index]? = some ctx ∧ ctx.attachedTo bus = true) ∧ clients.attached bus = 1

end Clients

-- What a call leaves as it was, and when it closes a port and takes out its record.
structure Call.Kept (call : Call) (clients : Clients) : Prop where
  failed : ∀ index cfg env, call = .connect index cfg env → (call.perform clients).rc ≠ 0
    → (call.perform clients).clients.reg = clients.reg ∧
      ∀ i, i ≠ index → (call.perform clients).clients.ctxs[i]? = clients.ctxs[i]?
  closed : ∀ entry ∈ clients.reg, .release (.descriptor entry.2.fd) ∈ (call.perform clients).acts
    ↔ ∃ index, call = .disconnect index ∧ clients.OnlyOf index entry.1
  unlinked : ∀ entry ∈ clients.reg, entry.1 ∉ Records.keys (call.perform clients).clients.reg
    ↔ ∃ index, call = .disconnect index ∧ clients.OnlyOf index entry.1

namespace Clients.Registered

variable {clients : Clients} {held : Finset Resource} {index : Nat} {ctx : ClientCtx}

theorem onlyOf_iff (h : clients.Registered held) (hindex : clients.ctxs[index]? = some ctx)
    {entry entry' : Address × SharedBus} (hmem : entry ∈ clients.reg) (hmem' : entry' ∈ clients.reg)
    (hctx : ctx.attachedTo entry.1 = true)
    : clients.OnlyOf index entry'.1 ↔ entry' = entry ∧ entry.2.refcnt = 1 := by
  have hcounted := h.counted entry hmem
  unfold OnlyOf
  rw [hindex]
  constructor
  . intro ⟨⟨ctx', hsome, hctx'⟩, hone⟩
    cases hsome
    have hbus := ((attachedTo_iff ctx entry.1).mp hctx).2
    have hbus' := ((attachedTo_iff ctx entry'.1).mp hctx').2
    rw [hbus] at hbus'
    have heq := Records.eq_of_key_eq h.addresses hmem' hmem (Option.some.inj hbus').symm
    rw [heq, ← hcounted] at hone
    exact ⟨heq, UInt32.toNat_inj.mp hone⟩
  . intro ⟨heq, hone⟩
    rw [heq, ← hcounted, hone]
    exact ⟨⟨ctx, rfl, hctx⟩, rfl⟩

theorem exists_attached (h : clients.Registered held) {entry : Address × SharedBus}
    (hmem : entry ∈ clients.reg)
    : ∃ ctx ∈ clients.ctxs, ctx.attachedTo entry.1 = true ∧ entry.2.Serves ctx := by
  have hpos := h.refcnt_pos entry hmem
  rw [UInt32.lt_iff_toNat_lt, h.counted entry hmem] at hpos
  obtain ⟨ctx, hctx, hattached⟩ := List.countP_pos_iff.mp hpos
  obtain ⟨hinit, hbus⟩ := (attachedTo_iff ctx entry.1).mp hattached
  obtain ⟨entry', hmem', hbus', hserves⟩ := h.led ctx hctx hinit
  rw [hbus] at hbus'
  rw [Records.eq_of_key_eq h.addresses hmem hmem' (Option.some.inj hbus')]  at hattached ⊢
  exact ⟨ctx, hctx, hattached, hserves⟩

-- A connect closes no port of a record.
theorem connecting_closed {clients : Clients} (h : clients.Registered held)
    (hindex : clients.ctxs[index]? = some ctx) {env : ConnectEnv} {cfg : ClientConfig}
    {connected : Client.Connected}
    (hconnecting : Connecting env clients.reg index ctx cfg connected)
    (hfresh : Ledger.Fresh Resource.Chosen held connected.acts)
    {entry : Address × SharedBus} (hmem : entry ∈ clients.reg)
    : .release (.descriptor entry.2.fd) ∉ connected.acts ∧ entry.1 ∈ Records.keys connected.reg := by
  have hkey := Records.mem_keys hmem
  cases hconnecting with
  | refused hctx hacts =>
    have hheld : .descriptor entry.2.fd ∈ held := by
      rw [h.held]
      exact List.mem_map_of_mem hmem
    have hpassing := hacts held (h.mutex_free hindex)
    exact ⟨hpassing.release_notMem hfresh hheld, hkey⟩
  | joined hfree hmem' hmatch =>
    rw [Records.keys_update]
    exact ⟨by simp, hkey⟩
  | opened hfree hpath hcalloc hfd =>
    rw [Records.keys_update]
    exact ⟨by simp, List.mem_cons_of_mem _ hkey⟩

theorem kept_connect (h : clients.Registered held) (index : Nat) (cfg : ClientConfig) (env : ConnectEnv)
    (hfresh : Ledger.Fresh Resource.Chosen held ((Call.connect index cfg env).perform clients).acts)
    : (Call.connect index cfg env).Kept clients := by
  have hnot : ∀ bus, ¬∃ i, Call.connect index cfg env = .disconnect i ∧ clients.OnlyOf i bus := by
    intro _ ⟨_, heq, _⟩
    contradiction
  cases hindex : clients.ctxs[index]? with
  | none =>
    have hperform : (Call.connect index cfg env).perform clients = ⟨-1, clients, []⟩ := by
      unfold Call.perform
      dsimp only
      rw [hindex]
    constructor
    . intro i cfg' env' _ _
      rw [hperform]
      exact ⟨rfl, fun _ _ => rfl⟩
    . intro entry hmem
      rw [hperform, iff_false_right (hnot entry.1)]
      exact List.not_mem_nil
    . intro entry hmem
      rw [hperform, iff_false_right (hnot entry.1), not_not]
      exact Records.mem_keys hmem
  | some ctx =>
    have hconnecting := connect_connecting env clients.reg index ctx cfg
    have hperform : (Call.connect index cfg env).perform clients
        = ⟨(connect env clients.reg index ctx cfg).rc, ⟨(connect env clients.reg index ctx cfg).reg,
            clients.ctxs.set index (connect env clients.reg index ctx cfg).ctx⟩,
          (connect env clients.reg index ctx cfg).acts⟩ := by
      unfold Call.perform
      dsimp only
      rw [hindex]
    rw [hperform] at hfresh
    constructor
    . intro i cfg' env' heq hrc
      cases heq
      rw [hperform] at hrc ⊢
      generalize connect env clients.reg index ctx cfg = connected at hconnecting hrc ⊢
      cases hconnecting with
      | refused hctx hacts =>
        refine ⟨rfl, ?_⟩
        intro j hj
        exact List.getElem?_set_ne fun heq => hj heq.symm
      | joined _ _ _ => contradiction
      | opened _ _ _ _ => contradiction
    . intro entry hmem
      rw [hperform, iff_false_right (hnot entry.1)]
      exact (h.connecting_closed hindex hconnecting hfresh hmem).1
    . intro entry hmem
      rw [hperform, iff_false_right (hnot entry.1), not_not]
      exact (h.connecting_closed hindex hconnecting hfresh hmem).2

-- A disconnect closes the port of a record if it takes out the record, as the last one to leave it does.
theorem disconnecting_closed (h : clients.Registered held)
    (hindex : clients.ctxs[index]? = some ctx) {disconnected : ClientCtx × Registry × List Act}
    (hdisconnecting : Disconnecting clients.reg index ctx disconnected)
    {entry : Address × SharedBus} (hmem : entry ∈ clients.reg)
    : (.release (.descriptor entry.2.fd) ∈ disconnected.2.2 ↔ clients.OnlyOf index entry.1) ∧
      (entry.1 ∉ Records.keys disconnected.2.1 ↔ clients.OnlyOf index entry.1) := by
  have hkey := Records.mem_keys hmem
  cases hdisconnecting with
  | idle hfree =>
    have hnot : ¬clients.OnlyOf index entry.1 := by
      intro ⟨⟨ctx', hsome, hctx'⟩, _⟩
      rw [hindex] at hsome
      cases hsome
      rw [not_attachedTo hfree] at hctx'
      contradiction
    simp [hnot, hkey]
  | @left entry' hctx hmem' hmore =>
    have hnot : ¬clients.OnlyOf index entry.1 := by
      rw [h.onlyOf_iff hindex hmem' hmem hctx]
      intro ⟨_, hone⟩
      rw [hone] at hmore
      exact absurd hmore (by decide)
    rw [Records.keys_update]
    simp [hnot, hkey]
  | @last entry' hctx hmem' hone =>
    have honly : clients.OnlyOf index entry.1 ↔ entry = entry' := by
      rw [h.onlyOf_iff hindex hmem' hmem hctx, and_iff_left hone]
    have hfd : entry.2.fd = entry'.2.fd ↔ entry = entry' := by
      constructor
      . exact List.inj_on_of_nodup_map h.descriptors hmem hmem'
      . intro heq
        rw [heq]
    have hunlink : entry.1 ∈ Records.keys (Records.unlink clients.reg entry'.1)
        ↔ entry.1 ∈ Records.keys clients.reg ∧ entry.1 ≠ entry'.1 :=
      Records.mem_map_unlink h.addresses h.addresses hmem'
    have hbus : entry.1 = entry'.1 ↔ entry = entry' := by
      constructor
      . exact Records.eq_of_key_eq h.addresses hmem hmem'
      . intro heq
        rw [heq]
    rw [honly, hunlink]
    simp [hkey, hfd, hbus]

theorem kept_disconnect (h : clients.Registered held) (index : Nat)
    : (Call.disconnect index).Kept clients := by
  have honly : ∀ bus, (∃ i, Call.disconnect index = .disconnect i ∧ clients.OnlyOf i bus)
      ↔ clients.OnlyOf index bus := by
    intro bus
    simp
  have hfailed : ∀ i cfg env, Call.disconnect index ≠ .connect i cfg env := by
    intro _ _ _ heq
    contradiction
  cases hindex : clients.ctxs[index]? with
  | none =>
    have hperform : (Call.disconnect index).perform clients = ⟨0, clients, []⟩ := by
      unfold Call.perform
      dsimp only
      rw [hindex]
    have hnot : ∀ bus, ¬clients.OnlyOf index bus := by
      intro bus ⟨⟨ctx, hsome, _⟩, _⟩
      rw [hindex] at hsome
      contradiction
    constructor
    . intro i cfg env heq
      exact absurd heq (hfailed i cfg env)
    . intro entry hmem
      rw [hperform, honly]
      simp [hnot]
    . intro entry hmem
      rw [hperform, honly]
      simp [hnot, Records.mem_keys hmem]
  | some ctx =>
    have hdisconnecting := h.disconnecting (List.mem_of_getElem? hindex) index
    have hperform : (Call.disconnect index).perform clients
        = ⟨0, ⟨(disconnect clients.reg index ctx).2.1,
            clients.ctxs.set index (disconnect clients.reg index ctx).1⟩,
          (disconnect clients.reg index ctx).2.2⟩ := by
      unfold Call.perform
      dsimp only
      rw [hindex]
    constructor
    . intro i cfg env heq
      exact absurd heq (hfailed i cfg env)
    . intro entry hmem
      rw [hperform, honly]
      exact (h.disconnecting_closed hindex hdisconnecting hmem).1
    . intro entry hmem
      rw [hperform, honly]
      exact (h.disconnecting_closed hindex hdisconnecting hmem).2

theorem kept (h : clients.Registered held) (call : Call)
    (hfresh : Ledger.Fresh Resource.Chosen held (call.perform clients).acts)
    : call.Kept clients := by
  cases call with
  | connect index cfg env => exact h.kept_connect index cfg env hfresh
  | disconnect index => exact h.kept_disconnect index

end Clients.Registered

theorem registry_kept {ctxs : List ClientCtx} (hctxs : ∀ ctx ∈ ctxs, ctx.initialized = false)
    {calls : List Call} (hfresh : Ledger.Fresh Resource.Chosen ∅ (Clients.run ⟨[], ctxs⟩ calls).2)
    (hlimit : ∀ before, before <+: calls
      → ∀ bus, (Clients.run ⟨[], ctxs⟩ before).1.attached bus < 2 ^ 32)
    : (Clients.run ⟨[], ctxs⟩ calls).1.Registered
        (Ledger.after ∅ (Clients.run ⟨[], ctxs⟩ calls).2) ∧
      ∀ call : Call, Ledger.Fresh Resource.Chosen (Ledger.after ∅ (Clients.run ⟨[], ctxs⟩ calls).2)
          (call.perform (Clients.run ⟨[], ctxs⟩ calls).1).acts
        → call.Kept (Clients.run ⟨[], ctxs⟩ calls).1 := by
  have hstart := Clients.registered_of_free hctxs
  obtain ⟨_, hregistered⟩ := hstart.run hfresh hlimit
  exact ⟨hregistered, hregistered.kept⟩

theorem run_cons (clients : Clients) (call : Call) (calls : List Call)
    : clients.run (call :: calls)
        =
      (((call.perform clients).clients.run calls).1,
        (call.perform clients).acts ++ ((call.perform clients).clients.run calls).2) := by
  rfl

theorem perform_length (call : Call) (clients : Clients)
    : (call.perform clients).clients.ctxs.length = clients.ctxs.length := by
  cases call with
  | connect index cfg env =>
    unfold Call.perform
    dsimp only
    split
    . rfl
    . apply List.length_set
  | disconnect index =>
    unfold Call.perform
    dsimp only
    split
    . rfl
    . apply List.length_set

theorem run_length (clients : Clients) (calls : List Call)
    : (clients.run calls).1.ctxs.length = clients.ctxs.length := by
  induction calls generalizing clients with
  | nil => rfl
  | cons call calls ih => exact (ih _).trans (perform_length call clients)

theorem attached_le (clients : Clients) (bus : Address)
    : clients.attached bus ≤ clients.ctxs.length := by
  apply List.countP_le_length

-- Two contexts on one path, one of them connected when the other leaves.
def sharedConfig : ClientConfig :=
  { ClientConfig.zeroed with device := "/dev/ttyUSB0" }

def sharedEnv : ConnectEnv :=
  ⟨true, some "/dev/ttyUSB0", some 1, ⟨3, true⟩, true⟩

theorem registry_kept_shared
    : (Clients.run ⟨[], [.zeroed, .zeroed]⟩
        [.connect 0 sharedConfig sharedEnv, .connect 1 sharedConfig sharedEnv, .disconnect 0]).1.Registered
        (Ledger.after ∅ (Clients.run ⟨[], [.zeroed, .zeroed]⟩
          [.connect 0 sharedConfig sharedEnv, .connect 1 sharedConfig sharedEnv, .disconnect 0]).2) := by
  have hfree : ∀ ctx ∈ [ClientCtx.zeroed, ClientCtx.zeroed], ctx.initialized = false := by decide
  refine (registry_kept hfree (by decide +kernel) ?_).1
  intro before _ bus
  have hle := attached_le (Clients.run ⟨[], [.zeroed, .zeroed]⟩ before).1 bus
  rw [run_length] at hle
  exact Nat.lt_of_le_of_lt hle (by decide)

-- The same path for any number of contexts.
def sharedRecord (n : Nat) : SharedBus :=
  { newBus "/dev/ttyUSB0" sharedConfig.serial 3 with refcnt := UInt32.ofNat n }

def sharedBy (n m : Nat) : Clients where
  reg := [(1, sharedRecord n)]
  ctxs := List.replicate n ⟨3, some 1, true, sharedConfig⟩ ++ List.replicate m .zeroed

theorem connect_shared (n : Nat)
    : connect sharedEnv [(1, sharedRecord n)] n .zeroed sharedConfig
        = ⟨0, ⟨3, some 1, true, sharedConfig⟩, [(1, sharedRecord (n + 1))],
            [.acquire (.mutex (.context n))]⟩ := by
  have hrecord : { sharedRecord n with refcnt := (sharedRecord n).refcnt + 1 } = sharedRecord (n + 1) := by
    unfold sharedRecord
    rw [UInt32.ofNat_add]
    rfl
  rw [← hrecord]
  rfl

theorem perform_sharedBy (n m : Nat)
    : (Call.connect n sharedConfig sharedEnv).perform (sharedBy n (m + 1))
        = ⟨0, sharedBy (n + 1) m, [.acquire (.mutex (.context n))]⟩ := by
  have hindex : (sharedBy n (m + 1)).ctxs[n]? = some .zeroed := by
    unfold sharedBy
    rw [List.getElem?_append_right (by simp)]
    simp
  unfold Call.perform
  dsimp only
  rw [hindex]
  dsimp only [sharedBy]
  rw [connect_shared]
  have hctxs : (List.replicate n (⟨3, some 1, true, sharedConfig⟩ : ClientCtx)
        ++ List.replicate (m + 1) ClientCtx.zeroed).set n ⟨3, some 1, true, sharedConfig⟩
      = List.replicate (n + 1) ⟨3, some 1, true, sharedConfig⟩ ++ List.replicate m .zeroed := by
    rw [List.set_append_right _ _ (by simp), List.length_replicate, Nat.sub_self, List.replicate_succ,
      List.set_cons_zero, List.replicate_succ', List.append_assoc]
    rfl
  rw [hctxs]

def connectAll (first n : Nat) : List Call :=
  (List.range' first n).map fun i => .connect i sharedConfig sharedEnv

theorem connectAll_succ (first n : Nat)
    : connectAll first (n + 1) = .connect first sharedConfig sharedEnv :: connectAll (first + 1) n := by
  rfl

theorem run_sharedBy (n m : Nat)
    : (sharedBy n m).run (connectAll n m)
        = (sharedBy (n + m) 0, ((List.range' n m).map fun i => .mutex (.context i)).map .acquire) := by
  induction m generalizing n with
  | zero => rfl
  | succ m ih =>
    have hadd : n + (m + 1) = n + 1 + m := by omega
    rw [connectAll_succ, run_cons, perform_sharedBy]
    dsimp only
    rw [ih, hadd]
    rfl

theorem run_all (n : Nat)
    : ∃ acts, Clients.run ⟨[], List.replicate (n + 1) .zeroed⟩ (connectAll 0 (n + 1))
        = (sharedBy (n + 1) 0, acts) ∧ Ledger.Fresh Resource.Chosen ∅ acts := by
  have hfirst : (Call.connect 0 sharedConfig sharedEnv).perform
        ⟨[], List.replicate (n + 1) .zeroed⟩
      = ⟨0, sharedBy 1 n, [.acquire (.mutex (.context 0)), .acquire (.memory 1),
          .acquire (.descriptor 3), .acquire (.mutex (.memory 1))]⟩ := by
    rfl
  rw [connectAll_succ, run_cons, hfirst]
  dsimp only
  rw [run_sharedBy, Nat.add_comm 1 n]
  refine ⟨_, rfl, ?_⟩
  rw [Ledger.fresh_append]
  refine ⟨by decide, ?_⟩
  apply Ledger.fresh_acquires
  intro resource hmem
  obtain ⟨i, _, heq⟩ := List.mem_map.mp hmem
  rw [← heq]
  exact id

theorem attached_sharedBy (n : Nat)
    : (sharedBy n 0).attached 1 = n := by
  unfold Clients.attached sharedBy
  rw [List.replicate_zero, List.append_nil, List.countP_replicate]
  rfl

-- The count of a record is that of its contexts up to a multiple of 2 ^ 32.
theorem refcnt_of_all {n : Nat} (hpos : 0 < n)
    : Ledger.Fresh Resource.Chosen ∅
        (Clients.run ⟨[], List.replicate n .zeroed⟩ (connectAll 0 n)).2 ∧
      ∃ entry ∈ (Clients.run ⟨[], List.replicate n .zeroed⟩ (connectAll 0 n)).1.reg,
        (Clients.run ⟨[], List.replicate n .zeroed⟩ (connectAll 0 n)).1.attached entry.1 = n ∧
        entry.2.refcnt = UInt32.ofNat n := by
  cases n with
  | zero => contradiction
  | succ n =>
    obtain ⟨acts, hrun, hfresh⟩ := run_all n
    rw [hrun]
    exact ⟨hfresh, (1, sharedRecord (n + 1)), List.mem_singleton_self _, attached_sharedBy _, rfl⟩

theorem refcnt_wraps
    : Ledger.Fresh Resource.Chosen ∅
        (Clients.run ⟨[], List.replicate (2 ^ 32) .zeroed⟩ (connectAll 0 (2 ^ 32))).2 ∧
      ∃ entry ∈ (Clients.run ⟨[], List.replicate (2 ^ 32) .zeroed⟩ (connectAll 0 (2 ^ 32))).1.reg,
        (Clients.run ⟨[], List.replicate (2 ^ 32) .zeroed⟩ (connectAll 0 (2 ^ 32))).1.attached entry.1
          = 2 ^ 32 ∧
        entry.2.refcnt = 0 := by
  have hzero : UInt32.ofNat (2 ^ 32) = 0 := by decide
  rw [← hzero]
  apply refcnt_of_all
  exact Nat.two_pow_pos 32

end Rtu.Client
