import ModbusProtocol.Rtu.Lemmas.Threads

/-!
This module contains what a function does that no other thread interrupts: the stages of it do together what the
function does as a whole.
-/

open Modbus Posix

namespace Rtu.Client

variable {m n : Nat} {p q : Process m n} {phase : Fin m → Phase n} {thread : Fin n} {index : Fin m}
  {stage : Stage}

namespace Process

-- Nothing but steps of this thread.
def Reaches (thread : Fin n) (p p' : Process m n) : Prop :=
  ∃ k, p.run (List.replicate k (.step thread true)) = some p'

theorem Reaches.refl
    : Reaches thread p p := by
  exact ⟨0, rfl⟩

theorem Reaches.step {p' : Process m n} (hframe : p.frames thread = some ⟨index, stage⟩)
    (hadvance : p.advance thread index stage true = some q) (hrest : Reaches thread q p')
    : Reaches thread p p' := by
  obtain ⟨k, hrest⟩ := hrest
  refine ⟨k + 1, ?_⟩
  rw [List.replicate_succ]
  change (p.step thread true).bind _ = some p'
  rw [step_of_frame hframe, hadvance]
  exact hrest

theorem goto_frame
    : (p.goto thread index stage).frames thread = some ⟨index, stage⟩ := by
  apply Function.update_self

-- What the mutexes have to do with it apart, a thread attaches its context as the function does.
theorem attach_eq (p : Process m n) (serial : SerialConfig) (env : ConnectEnv)
    : ∃ locks, locks .registry = p.locks .registry ∧
        p.attach serial env = ((sharedBusAttach p.reg serial env).1.map Prod.fst,
          ⟨(sharedBusAttach p.reg serial env).2.1, p.ctxs, locks, p.frames⟩) := by
  unfold attach
  obtain ⟨attached, reg, acts⟩ := sharedBusAttach p.reg serial env
  cases attached with
  | none => exact ⟨p.locks, rfl, rfl⟩
  | some entry =>
    dsimp only
    split
    . exact ⟨p.locks, rfl, rfl⟩
    . refine ⟨_, ?_, rfl⟩
      rw [Function.update_of_ne (by simp)]

theorem detach_eq {bus : Address} {record : SharedBus} (hget : getBus p.reg bus = some record)
    : ∃ locks, (∀ l, l ≠ busLock bus → locks l = p.locks l) ∧
        p.detach bus = some ⟨(sharedBusDetach p.reg bus).1, p.ctxs, locks, p.frames⟩ := by
  unfold detach
  rw [hget]
  dsimp only
  split
  . exact ⟨p.locks, fun _ _ => rfl, rfl⟩
  . refine ⟨_, ?_, rfl⟩
    intro l hl
    rw [Function.update_of_ne hl]

end Process

-- The pointer that an attach returns leads to the record.
theorem sharedBusAttach_get {reg : Registry} {serial : SerialConfig} {env : ConnectEnv}
    {entry : Address × SharedBus} (hkeys : (Records.keys reg).Nodup)
    (hhonest : ∀ bus ∈ env.calloc, bus ∉ Records.keys reg)
    (h : (sharedBusAttach reg serial env).1 = some entry)
    : ∃ record, getBus (sharedBusAttach reg serial env).2.1 entry.1 = some record ∧
        record.fd = entry.2.fd := by
  have hattaching := sharedBusAttach_attaching reg serial env
  generalize sharedBusAttach reg serial env = attached at h hattaching
  cases hattaching with
  | refused => contradiction
  | @joined entry' hmem =>
    injection h with h
    rw [← h]
    refine ⟨entry'.2.recount counted, ?_, rfl⟩
    apply Records.get_eq_some
    . rw [Records.keys_update]
      exact hkeys
    . exact Records.mem_update.mpr (.inr ⟨rfl, entry'.2, hmem, rfl⟩)
  | @opened key _ bus fd hcalloc =>
    injection h with h
    rw [← h]
    have hbus := hhonest bus hcalloc
    refine ⟨(newBus key serial fd).recount counted, ?_, rfl⟩
    rw [Records.update_cons_of_notMem hbus]
    apply Records.get_eq_some
    . exact List.nodup_cons.mpr ⟨hbus, hkeys⟩
    . exact List.mem_cons_self

-- What a thread that is alone leaves behind at the end of a function.
structure Ends (thread : Fin n) (p : Process m n) (reg : Registry) (ctxs : Fin m → ClientCtx) (p' : Process m n)
    : Prop where
  reaches : Process.Reaches thread p p'
  reg : p'.reg = reg
  ctxs : p'.ctxs = ctxs
  frames : p'.frames = Function.update p.frames thread none

theorem Ends.step {reg : Registry} {ctxs : Fin m → ClientCtx} {stage' : Stage} {p' : Process m n}
    (hframe : p.frames thread = some ⟨index, stage⟩)
    (hadvance : p.advance thread index stage true = some (q.goto thread index stage'))
    (hframes : q.frames = p.frames) (hrest : Ends thread (q.goto thread index stage') reg ctxs p')
    : Ends thread p reg ctxs p' := by
  refine ⟨.step hframe hadvance hrest.reaches, hrest.reg, hrest.ctxs, ?_⟩
  rw [hrest.frames]
  change Function.update (Function.update q.frames thread _) thread none = _
  rw [Function.update_idem, hframes]

theorem Ends.last {reg : Registry} {ctxs : Fin m → ClientCtx} (hframe : p.frames thread = some ⟨index, stage⟩)
    (hadvance : p.advance thread index stage true = some (q.leave thread)) (hreg : q.reg = reg)
    (hctxs : q.ctxs = ctxs) (hframes : q.frames = p.frames)
    : Ends thread p reg ctxs (q.leave thread) := by
  refine ⟨.step hframe hadvance .refl, hreg, hctxs, ?_⟩
  change Function.update q.frames thread none = _
  rw [hframes]

theorem Ends.lock {reg : Registry} {ctxs : Fin m → ClientCtx} {stage' : Stage} {l : Lock}
    (hframe : p.frames thread = some ⟨index, stage⟩) (hfree : p.locks l = .free)
    (hadvance : p.advance thread index stage true = (p.lock thread l).map (Process.goto thread index stage'))
    (hrest : ∃ p', Ends thread (Process.goto thread index stage'
      { p with locks := Function.update p.locks l (.held thread) }) reg ctxs p')
    : ∃ p', Ends thread p reg ctxs p' := by
  obtain ⟨p', hrest⟩ := hrest
  rw [Process.lock_of_free hfree] at hadvance
  exact ⟨p', .step hframe hadvance rfl hrest⟩

theorem Ends.unlock {reg : Registry} {ctxs : Fin m → ClientCtx} {stage' : Stage} {l : Lock}
    (hframe : p.frames thread = some ⟨index, stage⟩) (hheld : p.locks l = .held thread)
    (hadvance : p.advance thread index stage true = (p.unlock thread l).map (Process.goto thread index stage'))
    (hrest : ∃ p', Ends thread (Process.goto thread index stage'
      { p with locks := Function.update p.locks l .free }) reg ctxs p')
    : ∃ p', Ends thread p reg ctxs p' := by
  obtain ⟨p', hrest⟩ := hrest
  rw [Process.unlock_of_held hheld] at hadvance
  exact ⟨p', .step hframe hadvance rfl hrest⟩

-- The part of `shared_bus_attach` under the lock of the registry, and what comes after it.
theorem connectAttaches_alone {env : ConnectEnv}
    (hframe : p.frames thread = some ⟨index, .connectAttaches env⟩) (hheld : p.locks .registry = .held thread)
    (hkeys : (Records.keys p.reg).Nodup) (hhonest : ∀ bus ∈ env.calloc, bus ∉ Records.keys p.reg)
    : let attached := sharedBusAttach p.reg (p.ctxs index).cfg.serial env
      ∃ p', Ends thread p attached.2.1
        (attached.1.elim p.ctxs fun entry => Function.update p.ctxs index
          { p.ctxs index with sharedBus := some entry.1, fd := entry.2.fd, initialized := true }) p' := by
  intro attached
  have hget := fun entry => @sharedBusAttach_get p.reg (p.ctxs index).cfg.serial env entry hkeys hhonest
  obtain ⟨locks, hlocks, hattach⟩ := p.attach_eq (p.ctxs index).cfg.serial env
  have hadvance : p.advance thread index (.connectAttaches env) true
      = some (Process.goto thread index (.connectUnlocks (attached.1.map Prod.fst))
          ⟨attached.2.1, p.ctxs, locks, p.frames⟩) := by
    unfold Process.advance
    dsimp only
    rw [hattach]
  suffices hends : ∃ p', Ends thread (Process.goto thread index (.connectUnlocks (attached.1.map Prod.fst))
      ⟨attached.2.1, p.ctxs, locks, p.frames⟩) attached.2.1 (attached.1.elim p.ctxs fun entry =>
      Function.update p.ctxs index
        { p.ctxs index with sharedBus := some entry.1, fd := entry.2.fd, initialized := true }) p' by
    obtain ⟨p', hends⟩ := hends
    exact ⟨p', .step hframe hadvance rfl hends⟩
  refine Ends.unlock Process.goto_frame (hlocks.trans hheld) rfl ?_
  cases hentry : attached.1 with
  | none =>
    have hlast := fun q : Process m n => show q.advance thread index (.connectEnds none) true
      = some (Process.leave thread (q.destroy (contextLock index))) from rfl
    exact ⟨_, .last Process.goto_frame (hlast _) rfl rfl rfl⟩
  | some entry =>
    obtain ⟨record, hget, hfd⟩ := hget entry hentry
    have hlast : ∀ q : Process m n, getBus q.reg entry.1 = some record
        → q.advance thread index (.connectEnds (some entry.1)) true
          = some (Process.leave thread (q.setCtx index
              { q.ctxs index with sharedBus := some entry.1, fd := record.fd, initialized := true })) := by
      intro q hget
      unfold Process.advance
      dsimp only
      rw [hget]
    refine ⟨_, .last Process.goto_frame (hlast _ hget) rfl ?_ rfl⟩
    rw [hfd]
    rfl

theorem connectResolves_alone {env : ConnectEnv}
    (hframe : p.frames thread = some ⟨index, .connectResolves env⟩) (hregistry : p.locks .registry = .free)
    (hkeys : (Records.keys p.reg).Nodup) (hhonest : ∀ bus ∈ env.calloc, bus ∉ Records.keys p.reg)
    : let attached := sharedBusAttach p.reg (p.ctxs index).cfg.serial env
      ∃ p', Ends thread p attached.2.1
        (attached.1.elim p.ctxs fun entry => Function.update p.ctxs index
          { p.ctxs index with sharedBus := some entry.1, fd := entry.2.fd, initialized := true }) p' := by
  intro attached
  cases hkey : resolveBusKey (p.ctxs index).cfg.device env with
  | none =>
    have hnone : attached = (none, p.reg, []) := by
      change sharedBusAttach p.reg (p.ctxs index).cfg.serial env = _
      unfold sharedBusAttach
      rw [show resolveBusKey (p.ctxs index).cfg.serial.device env = none from hkey]
    have hresolves : p.advance thread index (.connectResolves env) true
        = some (p.goto thread index (.connectEnds none)) := by
      unfold Process.advance
      dsimp only
      rw [hkey]
    have hlast := fun q : Process m n => show q.advance thread index (.connectEnds none) true
      = some (Process.leave thread (q.destroy (contextLock index))) from rfl
    rw [hnone]
    exact ⟨_, .step hframe hresolves rfl (.last Process.goto_frame (hlast _) rfl rfl rfl)⟩
  | some key =>
    have hresolves : p.advance thread index (.connectResolves env) true
        = (p.lock thread .registry).map (Process.goto thread index (.connectAttaches env)) := by
      unfold Process.advance
      dsimp only
      rw [hkey]
    have hheld : Function.update p.locks Lock.registry (.held thread) .registry = .held thread := by
      rw [Function.update_self]
    refine Ends.lock hframe hregistry hresolves ?_
    exact connectAttaches_alone Process.goto_frame hheld hkeys hhonest

-- A context that is connected from its first lock on.
theorem connects_alone (hfree : p.frames thread = none) (hregistry : p.locks .registry = .free)
    (hkeys : (Records.keys p.reg).Nodup) (cfg : ClientConfig) (env : ConnectEnv)
    (hhonest : ∀ bus ∈ env.calloc, bus ∉ Records.keys p.reg)
    : let attached := sharedBusAttach p.reg cfg.serial env
      ∃ p', Process.Reaches thread (Process.goto thread index (.connectResolves env)
          ((p.setCtx index ⟨-1, none, false, cfg⟩).init (contextLock index))) p' ∧
        p'.reg = attached.2.1 ∧
        p'.ctxs = Function.update p.ctxs index
          (attached.1.elim ⟨-1, none, false, cfg⟩ fun entry => ⟨entry.2.fd, some entry.1, true, cfg⟩) ∧
        p'.frames = p.frames := by
  intro attached
  obtain ⟨q, hq⟩ : ∃ q, q = Process.goto thread index (.connectResolves env)
    ((p.setCtx index ⟨-1, none, false, cfg⟩).init (contextLock index)) := ⟨_, rfl⟩
  have hreg : q.reg = p.reg := by
    rw [hq]
    rfl
  have hctxs : q.ctxs = Function.update p.ctxs index ⟨-1, none, false, cfg⟩ := by
    rw [hq]
    rfl
  have hctx : q.ctxs index = ⟨-1, none, false, cfg⟩ := by
    rw [hctxs, Function.update_self]
  have hframes : q.frames = Function.update p.frames thread (some ⟨index, .connectResolves env⟩) := by
    rw [hq]
    rfl
  have hframe : q.frames thread = some ⟨index, .connectResolves env⟩ := by
    rw [hframes, Function.update_self]
  have hunlocked : q.locks .registry = .free := by
    rw [hq]
    change Function.update p.locks (contextLock index) .free .registry = .free
    rw [Function.update_of_ne (by simp)]
    exact hregistry
  rw [← hreg] at hkeys hhonest
  obtain ⟨p', hends⟩ := connectResolves_alone hframe hunlocked hkeys hhonest
  rw [hctx, hreg] at hends
  rw [← hq]
  refine ⟨p', hends.reaches, hends.reg, ?_, ?_⟩
  . rw [hends.ctxs, hctxs]
    change attached.1.elim _ _ = _
    cases attached.1 with
    | none => rfl
    | some entry => apply Function.update_idem
  . rw [hends.frames, hframes, Function.update_idem, ← hfree, Function.update_eq_self]

theorem disconnectReleases_alone (hframe : p.frames thread = some ⟨index, .disconnectReleases⟩)
    (hheld : p.locks (contextLock index) = .held thread)
    : ∃ p', Ends thread p p.reg p.ctxs p' := by
  have hlast := fun q : Process m n => show q.advance thread index .disconnectDestroys true
    = some (Process.leave thread (q.destroy (contextLock index))) from rfl
  refine Ends.unlock hframe hheld rfl ?_
  exact ⟨_, .last Process.goto_frame (hlast _) rfl rfl rfl⟩

theorem disconnectUnlocks_alone (hframe : p.frames thread = some ⟨index, .disconnectUnlocks⟩)
    (hregistry : p.locks .registry = .held thread) (hheld : p.locks (contextLock index) = .held thread)
    : ∃ p', Ends thread p p.reg (Function.update p.ctxs index
        { p.ctxs index with sharedBus := none, fd := -1, initialized := false }) p' := by
  have hclears := fun q : Process m n => show q.advance thread index .disconnectClears true
    = some (Process.goto thread index .disconnectReleases (q.setCtx index
        { q.ctxs index with sharedBus := none, fd := -1, initialized := false })) from rfl
  have hstill : Function.update p.locks Lock.registry .free (contextLock index) = .held thread := by
    rw [Function.update_of_ne (by simp)]
    exact hheld
  refine Ends.unlock hframe hregistry rfl ?_
  obtain ⟨p', hends⟩ := @disconnectReleases_alone _ _ (Process.goto thread index .disconnectReleases
    (Process.setCtx (Process.goto thread index .disconnectClears
      { p with locks := Function.update p.locks .registry .free }) index
      { p.ctxs index with sharedBus := none, fd := -1, initialized := false })) thread index
    Process.goto_frame hstill
  exact ⟨p', .step Process.goto_frame (hclears _) rfl hends⟩

theorem disconnectDrops_alone (hframe : p.frames thread = some ⟨index, .disconnectDrops⟩)
    (hregistry : p.locks .registry = .held thread) (hheld : p.locks (contextLock index) = .held thread)
    {bus : Address} {record : SharedBus} (hbus : (p.ctxs index).sharedBus = some bus)
    (hget : getBus p.reg bus = some record)
    : ∃ p', Ends thread p (sharedBusDetach p.reg bus).1 (Function.update p.ctxs index
        { p.ctxs index with sharedBus := none, fd := -1, initialized := false }) p' := by
  obtain ⟨locks, hlocks, hdetach⟩ := Process.detach_eq hget
  have hadvance : p.advance thread index .disconnectDrops true
      = some (Process.goto thread index .disconnectUnlocks
          ⟨(sharedBusDetach p.reg bus).1, p.ctxs, locks, p.frames⟩) := by
    unfold Process.advance
    dsimp only
    rw [hbus]
    dsimp only
    rw [hdetach]
    rfl
  obtain ⟨p', hends⟩ := @disconnectUnlocks_alone _ _ (Process.goto thread index .disconnectUnlocks
    ⟨(sharedBusDetach p.reg bus).1, p.ctxs, locks, p.frames⟩) thread index Process.goto_frame
    ((hlocks .registry (by simp)).trans hregistry) ((hlocks _ (by simp)).trans hheld)
  exact ⟨p', .step hframe hadvance rfl hends⟩

theorem disconnectDetaches_alone (hframe : p.frames thread = some ⟨index, .disconnectDetaches⟩)
    (hregistry : p.locks .registry = .free) (hheld : p.locks (contextLock index) = .held thread)
    {bus : Address} {record : SharedBus} (hbus : (p.ctxs index).sharedBus = some bus)
    (hget : getBus p.reg bus = some record)
    : ∃ p', Ends thread p (sharedBusDetach p.reg bus).1 (Function.update p.ctxs index
        { p.ctxs index with sharedBus := none, fd := -1, initialized := false }) p' := by
  have hregistry' : Function.update p.locks Lock.registry (.held thread) .registry = .held thread := by
    rw [Function.update_self]
  have hheld' : Function.update p.locks Lock.registry (.held thread) (contextLock index) = .held thread := by
    rw [Function.update_of_ne (by simp)]
    exact hheld
  refine Ends.lock hframe hregistry rfl ?_
  exact @disconnectDrops_alone _ _ (Process.goto thread index .disconnectDrops
    { p with locks := Function.update p.locks .registry (.held thread) }) thread index Process.goto_frame
    hregistry' hheld' bus record hbus hget

theorem disconnectLocks_alone (hframe : p.frames thread = some ⟨index, .disconnectLocks⟩)
    (hregistry : p.locks .registry = .free) (hfree : p.locks (contextLock index) = .free)
    {bus : Address} {record : SharedBus} (hbus : (p.ctxs index).sharedBus = some bus)
    (hget : getBus p.reg bus = some record)
    : ∃ p', Ends thread p (sharedBusDetach p.reg bus).1 (Function.update p.ctxs index
        { p.ctxs index with sharedBus := none, fd := -1, initialized := false }) p' := by
  have hregistry' : Function.update p.locks (contextLock index) (.held thread) .registry = .free := by
    rw [Function.update_of_ne (by simp)]
    exact hregistry
  have hheld : Function.update p.locks (contextLock index) (.held thread) (contextLock index)
      = .held thread := by
    rw [Function.update_self]
  refine Ends.lock hframe hfree rfl ?_
  exact @disconnectDetaches_alone _ _ (Process.goto thread index .disconnectDetaches
    { p with locks := Function.update p.locks (contextLock index) (.held thread) }) thread index
    Process.goto_frame hregistry' hheld bus record hbus hget

namespace Phased

-- `mb_rtu_client_connect` by a thread that has not to wait for the registry
theorem connect_alone (h : Phased p phase) (hfree : p.frames thread = none)
    (hregistry : p.locks .registry = .free) (cfg : ClientConfig) (env : ConnectEnv)
    (hhonest : ∀ bus ∈ env.calloc, bus ∉ Records.keys p.reg)
    : let connected := connect env p.reg index (p.ctxs index) cfg
      ∃ q p', p.call thread (.connect index cfg env) = some q ∧ Process.Reaches thread q p' ∧
        p'.reg = connected.reg ∧ p'.ctxs = Function.update p.ctxs index connected.ctx ∧
        p'.frames = p.frames := by
  intro connected
  have hcall : p.call thread (.connect index cfg env)
      = if cfg.device = "" then
          some p
        else if (p.ctxs index).initialized then
          some p
        else if !env.lockInit then
          some (p.setCtx index ⟨-1, none, false, cfg⟩)
        else
          some (((p.setCtx index ⟨-1, none, false, cfg⟩).init (contextLock index)).goto thread index
            (.connectResolves env)) := by
    unfold Process.call
    rw [hfree]
    rfl
  have hconnect : connected = connect env p.reg index (p.ctxs index) cfg := rfl
  unfold connect at hconnect
  rw [hcall]
  clear hcall
  split
  next hdevice =>
    rw [if_pos hdevice] at hconnect
    rw [hconnect]
    exact ⟨p, p, rfl, .refl, rfl, (Function.update_eq_self _ _).symm, rfl⟩
  next hdevice =>
    rw [if_neg hdevice] at hconnect
    split
    next hinit =>
      rw [if_pos hinit] at hconnect
      rw [hconnect]
      exact ⟨p, p, rfl, .refl, rfl, (Function.update_eq_self _ _).symm, rfl⟩
    next hinit =>
      rw [if_neg hinit] at hconnect
      dsimp only at hconnect
      split
      next hlock =>
        rw [if_pos hlock] at hconnect
        rw [hconnect]
        exact ⟨_, _, rfl, .refl, rfl, rfl, rfl⟩
      next hlock =>
        rw [if_neg hlock] at hconnect
        obtain ⟨p', hreaches, hreg, hctxs, hframes⟩ := connects_alone hfree hregistry h.records.addresses
          cfg env hhonest
        refine ⟨_, p', rfl, hreaches, ?_, ?_, hframes⟩
        . rw [hreg, hconnect]
          split
          next heq => rw [heq]
          next heq => rw [heq]
        . rw [hctxs, hconnect]
          split
          next heq =>
            rw [heq]
            rfl
          next heq =>
            rw [heq]
            rfl

-- `mb_rtu_client_disconnect` by a thread that has not to wait for a lock
theorem disconnect_alone (h : Phased p phase) (hfree : p.frames thread = none)
    (hregistry : p.locks .registry = .free)
    (hlock : (p.ctxs index).initialized = true → p.locks (contextLock index) = .free)
    : let disconnected := disconnect p.reg index (p.ctxs index)
      ∃ q p', p.call thread (.disconnect index) = some q ∧ Process.Reaches thread q p' ∧
        p'.reg = disconnected.2.1 ∧ p'.ctxs = Function.update p.ctxs index disconnected.1 ∧
        p'.frames = p.frames := by
  intro disconnected
  have hcall : p.call thread (.disconnect index)
      = if !(p.ctxs index).initialized then
          some p
        else
          some (p.goto thread index .disconnectLocks) := by
    unfold Process.call
    rw [hfree]
    rfl
  have hdisconnect : disconnected = disconnect p.reg index (p.ctxs index) := rfl
  unfold disconnect at hdisconnect
  rw [hcall]
  cases hinit : (p.ctxs index).initialized with
  | false =>
    rw [hinit] at hdisconnect
    rw [hdisconnect]
    exact ⟨p, p, rfl, .refl, rfl, (Function.update_eq_self _ _).symm, rfl⟩
  | true =>
    have hunlocked := hlock hinit
    have hbusy : ¬p.Busy index Stage.isDetaching := by
      intro hbusy
      obtain ⟨thread', stage, hframe, hstage⟩ := Process.busy_iff.mp hbusy
      have hheld : p.locks (contextLock index) = .held thread' := by
        apply (h.agree _ _).mpr
        rw [hframe]
        exact stage.locks_of_isDetaching hstage index
      rw [hunlocked] at hheld
      contradiction
    obtain ⟨bus, hphase⟩ := h.connected hinit hbusy
    have hctx := h.contexts index
    rw [hphase] at hctx
    obtain ⟨entry, hmem, hkey⟩ := List.mem_map.mp (h.records.led index bus (by rw [hphase]; rfl))
    have hget : getBus p.reg bus = some entry.2 := by
      rw [← hkey]
      exact Records.get_eq_some h.records.addresses hmem
    obtain ⟨p', hends⟩ := @disconnectLocks_alone _ _ (p.goto thread index .disconnectLocks) thread index
      Process.goto_frame hregistry hunlocked bus entry.2 hctx.2.1 hget
    rw [hinit, hctx.2.1] at hdisconnect
    rw [hdisconnect]
    refine ⟨_, p', rfl, hends.reaches, hends.reg, ?_, ?_⟩
    . rw [hends.ctxs]
      rfl
    . rw [hends.frames]
      change Function.update (Function.update p.frames thread _) thread none = p.frames
      rw [Function.update_idem, ← hfree, Function.update_eq_self]

end Phased

end Rtu.Client
