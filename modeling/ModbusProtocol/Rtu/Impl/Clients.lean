import ModbusProtocol.Rtu.Impl.Bus

/-!
This module contains the RTU clients of one process: all contexts, the registry that they share, and runs
of connecting and disconnecting them in any order.
-/

open Posix

namespace Rtu.Client

def ClientConfig.zeroed : ClientConfig :=
  ⟨"", 0, 0, 0, .none, 0, 0, 0, 0, .none, false, false⟩

-- A context that has been set to zero, as a caller does before the first use.
def ClientCtx.zeroed : ClientCtx :=
  ⟨0, none, false, .zeroed⟩

-- The contexts are told apart by their index.
structure Clients where
  reg : Registry
  ctxs : List ClientCtx
  deriving DecidableEq, Repr

inductive Call where
  | connect (index : Nat) (cfg : ClientConfig) (env : ConnectEnv)
  | disconnect (index : Nat)
  deriving DecidableEq, Repr

structure Called where
  rc : Int
  clients : Clients
  acts : List Act
  deriving DecidableEq, Repr

-- A call on a context that there is.
def Call.perform (call : Call) (clients : Clients) : Called :=
  match call with
  | .connect index cfg env =>
    match clients.ctxs[index]? with
    | none => ⟨-1, clients, []⟩
    | some ctx =>
      let ⟨rc, ctx, reg, acts⟩ := Client.connect env clients.reg index ctx cfg
      ⟨rc, ⟨reg, clients.ctxs.set index ctx⟩, acts⟩
  | .disconnect index =>
    match clients.ctxs[index]? with
    | none => ⟨0, clients, []⟩
    | some ctx =>
      let (ctx, reg, acts) := Client.disconnect clients.reg index ctx
      ⟨0, ⟨reg, clients.ctxs.set index ctx⟩, acts⟩

-- The state after a sequence of calls, and all that has been acquired and released.
def Clients.run (clients : Clients) : List Call → Clients × List Act
  | [] => (clients, [])
  | call :: calls =>
    let called := call.perform clients
    let (clients, acts) := Clients.run called.clients calls
    (clients, called.acts ++ acts)

-- a connected context that points to the record
def ClientCtx.attachedTo (ctx : ClientCtx) (bus : Address) : Bool :=
  ctx.initialized ∧ ctx.sharedBus = some bus

def Clients.attached (clients : Clients) (bus : Address) : Nat :=
  clients.ctxs.countP fun ctx => ctx.attachedTo bus

end Rtu.Client
