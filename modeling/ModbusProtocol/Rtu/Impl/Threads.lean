import Mathlib.Logic.Function.Basic
import ModbusProtocol.Data.Mutex
import ModbusProtocol.Rtu.Impl.Clients

/-!
This module contains the functions of `modbus_rtu_client.c` as the threads of a process interleave them, from
one access to what they share to the next. There is no next step for a thread that waits for a mutex, nor for one
that would follow a pointer to a record that is gone, or lock a mutex that has been destroyed.

The bytes on the line are left out, and so are the time and the unit id that a transaction leaves in its record.
-/

open Modbus Posix

namespace Rtu.Client

inductive Lock where
  -- `shared_buses_registry_lock`
  | registry
  | owned (owner : Owner)
  deriving DecidableEq, Repr

-- What a thread is about to do in a function.
inductive Stage where
  -- `mb_rtu_client_connect`, from `shared_bus_attach` on
  | connectResolves (env : ConnectEnv)
  | connectAttaches (env : ConnectEnv)
  | connectUnlocks (bus : Option Address)
  | connectEnds (bus : Option Address)
  -- `transact`
  | transactLocks (fc : UInt8)
  | transactChecks (fc : UInt8)
  | transactBegins (unitId : UInt8)
  | transactSends (unitId : UInt8) (bus : Address)
  | transactEchoes (unitId : UInt8) (bus : Address)
  | transactReceives (bus : Address)
  | transactEnds (bus : Address)
  | transactUnlocks
  -- `mb_rtu_client_set_unit_id`
  | setLocks (unitId : UInt8)
  | setWrites (unitId : UInt8)
  | setUnlocks
  -- `mb_rtu_client_disconnect`, with `shared_bus_detach` from its lock to its unlock
  | disconnectLocks
  | disconnectDetaches
  | disconnectDrops
  | disconnectUnlocks
  | disconnectClears
  | disconnectReleases
  | disconnectDestroys
  deriving DecidableEq, Repr

structure Frame (m : Nat) where
  index : Fin m
  stage : Stage
  deriving DecidableEq, Repr

-- Any number of contexts, and any number of threads that use them.
structure Process (m n : Nat) where
  reg : Registry
  ctxs : Fin m → ClientCtx
  locks : Lock → Mutex (Fin n)
  frames : Fin n → Option (Frame m)

inductive Request (m : Nat) where
  | connect (index : Fin m) (cfg : ClientConfig) (env : ConnectEnv)
  | transact (index : Fin m) (fc : UInt8)
  | setUnitId (index : Fin m) (unitId : UInt8)
  | disconnect (index : Fin m)
  deriving DecidableEq, Repr

inductive Move (m n : Nat) where
  | call (thread : Fin n) (request : Request m)
  -- the outcome is that of sending a request and of reading its echo
  | step (thread : Fin n) (outcome : Bool)
  deriving DecidableEq, Repr

variable {m n : Nat}

abbrev contextLock (index : Fin m) : Lock :=
  .owned (.context index)

abbrev busLock (bus : Address) : Lock :=
  .owned (.memory bus)

namespace Process

def lock (p : Process m n) (thread : Fin n) (l : Lock) : Option (Process m n) :=
  if p.locks l = .free then
    some { p with locks := Function.update p.locks l (.held thread) }
  else
    none

def unlock (p : Process m n) (thread : Fin n) (l : Lock) : Option (Process m n) :=
  if p.locks l = .held thread then
    some { p with locks := Function.update p.locks l .free }
  else
    none

def init (p : Process m n) (l : Lock) : Process m n :=
  { p with locks := Function.update p.locks l .free }

def destroy (p : Process m n) (l : Lock) : Process m n :=
  { p with locks := Function.update p.locks l .absent }

def setCtx (p : Process m n) (index : Fin m) (ctx : ClientCtx) : Process m n :=
  { p with ctxs := Function.update p.ctxs index ctx }

def goto (thread : Fin n) (index : Fin m) (stage : Stage) (p : Process m n) : Process m n :=
  { p with frames := Function.update p.frames thread (some ⟨index, stage⟩) }

def leave (thread : Fin n) (p : Process m n) : Process m n :=
  { p with frames := Function.update p.frames thread none }

-- The part of `shared_bus_attach` under the lock of the registry. A new record has a new mutex.
def attach (p : Process m n) (serial : SerialConfig) (env : ConnectEnv)
    : Option Address × Process m n :=
  match sharedBusAttach p.reg serial env with
  | (none, reg, _) => (none, { p with reg := reg })
  | (some (bus, _), reg, _) =>
    if (getBus p.reg bus).isSome then
      (some bus, { p with reg := reg })
    else
      (some bus, { p with reg := reg }.init (busLock bus))

-- The part of `shared_bus_detach` under the lock of the registry.
def detach (p : Process m n) (bus : Address) : Option (Process m n) :=
  match getBus p.reg bus with
  | none => none
  | some _ =>
    let (reg, _) := sharedBusDetach p.reg bus
    if (getBus reg bus).isSome then
      some { p with reg := reg }
    else
      some ({ p with reg := reg }.destroy (busLock bus))

-- Up to the first lock, or up to the end where none is needed.
def call (p : Process m n) (thread : Fin n) (request : Request m) : Option (Process m n) :=
  if (p.frames thread).isSome then
    none
  else
    match request with
    | .connect index cfg env =>
      if cfg.device = "" then
        some p
      else if (p.ctxs index).initialized then
        some p
      else
        let p := p.setCtx index ⟨-1, none, false, cfg⟩
        if !env.lockInit then
          some p
        else
          some ((p.init (contextLock index)).goto thread index (.connectResolves env))
    | .transact index fc =>
      if !(p.ctxs index).initialized then
        some p
      else
        some (p.goto thread index (.transactLocks fc))
    | .setUnitId index unitId =>
      if !(p.ctxs index).initialized then
        some p
      else
        some (p.goto thread index (.setLocks unitId))
    | .disconnect index =>
      if !(p.ctxs index).initialized then
        some p
      else
        some (p.goto thread index .disconnectLocks)

-- What a thread does from one stage to the next, or to the end of the function.
def advance (p : Process m n) (thread : Fin n) (index : Fin m) (stage : Stage) (outcome : Bool)
    : Option (Process m n) :=
  let ctx := p.ctxs index
  let goto := goto thread index
  match stage with
  | .connectResolves env =>
    match resolveBusKey ctx.cfg.device env with
    | none => some (goto (.connectEnds none) p)
    | some _ => (p.lock thread .registry).map (goto (.connectAttaches env))
  | .connectAttaches env =>
    let (bus, p) := p.attach ctx.cfg.serial env
    some (goto (.connectUnlocks bus) p)
  | .connectUnlocks bus => (p.unlock thread .registry).map (goto (.connectEnds bus))
  | .connectEnds none => some (leave thread (p.destroy (contextLock index)))
  | .connectEnds (some bus) =>
    match getBus p.reg bus with
    | none => none
    | some record =>
      let ctx := { ctx with sharedBus := some bus, fd := record.fd, initialized := true }
      some (leave thread (p.setCtx index ctx))
  | .transactLocks fc => (p.lock thread (contextLock index)).map (goto (.transactChecks fc))
  | .transactChecks fc =>
    if ctx.cfg.unitId = rtuBroadcastAddress ∧ !Pdu.isWrite fc then
      some (goto .transactUnlocks p)
    else
      some (goto (.transactBegins ctx.cfg.unitId) p)
  | .transactBegins unitId =>
    match ctx.sharedBus with
    | none => none
    | some bus => (p.lock thread (busLock bus)).map (goto (.transactSends unitId bus))
  | .transactSends unitId bus =>
    if !outcome then
      some (goto (.transactEnds bus) p)
    else if ctx.cfg.localEcho then
      some (goto (.transactEchoes unitId bus) p)
    else if unitId = rtuBroadcastAddress then
      some (goto (.transactEnds bus) p)
    else
      some (goto (.transactReceives bus) p)
  | .transactEchoes unitId bus =>
    if !outcome then
      some (goto (.transactEnds bus) p)
    else if unitId = rtuBroadcastAddress then
      some (goto (.transactEnds bus) p)
    else
      some (goto (.transactReceives bus) p)
  | .transactReceives bus => some (goto (.transactEnds bus) p)
  | .transactEnds _ =>
    match ctx.sharedBus with
    | none => none
    | some bus => (p.unlock thread (busLock bus)).map (goto .transactUnlocks)
  | .transactUnlocks => (p.unlock thread (contextLock index)).map (leave thread)
  | .setLocks unitId => (p.lock thread (contextLock index)).map (goto (.setWrites unitId))
  | .setWrites unitId =>
    some (goto .setUnlocks (p.setCtx index { ctx with cfg := { ctx.cfg with unitId := unitId } }))
  | .setUnlocks => (p.unlock thread (contextLock index)).map (leave thread)
  | .disconnectLocks => (p.lock thread (contextLock index)).map (goto .disconnectDetaches)
  | .disconnectDetaches => (p.lock thread .registry).map (goto .disconnectDrops)
  | .disconnectDrops =>
    match ctx.sharedBus with
    | none => none
    | some bus => (p.detach bus).map (goto .disconnectUnlocks)
  | .disconnectUnlocks => (p.unlock thread .registry).map (goto .disconnectClears)
  | .disconnectClears =>
    let ctx := { ctx with sharedBus := none, fd := -1, initialized := false }
    some (goto .disconnectReleases (p.setCtx index ctx))
  | .disconnectReleases => (p.unlock thread (contextLock index)).map (goto .disconnectDestroys)
  | .disconnectDestroys => some (leave thread (p.destroy (contextLock index)))

def step (p : Process m n) (thread : Fin n) (outcome : Bool) : Option (Process m n) :=
  match p.frames thread with
  | none => none
  | some ⟨index, stage⟩ => p.advance thread index stage outcome

def move (p : Process m n) : Move m n → Option (Process m n)
  | .call thread request => p.call thread request
  | .step thread outcome => p.step thread outcome

def run (p : Process m n) : List (Move m n) → Option (Process m n)
  | [] => some p
  | move :: moves => (p.move move).bind fun p => run p moves

-- Nothing has been connected yet.
def start : Process m n where
  reg := []
  ctxs _ := .zeroed
  locks l := if l = .registry then .free else .absent
  frames _ := none

-- A rule for a move, at every move of a run.
def Along (rule : Move m n → Process m n → Prop) (p : Process m n) : List (Move m n) → Prop
  | [] => True
  | move :: moves => rule move p ∧ ∀ p' ∈ p.move move, Along rule p' moves

instance decidableAlong (rule : Move m n → Process m n → Prop) [∀ move p, Decidable (rule move p)]
    (p : Process m n) (moves : List (Move m n)) : Decidable (p.Along rule moves) :=
  match moves with
  | [] => inferInstanceAs (Decidable True)
  | move :: moves =>
    have := fun p' : Process m n => decidableAlong rule p' moves
    inferInstanceAs (Decidable (rule move p ∧ ∀ p' ∈ p.move move, p'.Along rule moves))

end Process

end Rtu.Client
