import Mathlib.Logic.Function.Basic
import ModbusProtocol.Rtu.Impl.Client
import ModbusProtocol.Rtu.Impl.Clients

/-!
This module contains runs of all that the RTU clients of one process do, and beside them when the last
transaction on a path has ended.

The transactions on a path come one after the other, as the mutex of the shared bus sees to, each with a
port that is as it is by then.
-/

open Posix

namespace Rtu.Client

structure Ended where
  unitId : UInt8
  time : Nat
  deriving DecidableEq, Repr

structure Traffic where
  clients : Clients
  last : String → Option Ended

inductive Op where
  | lifecycle (call : Call)
  | setUnitId (index : Nat) (unitId : UInt8)
  -- a request of the context, and the port
  | transact (index : Nat) (line : Line) (req pdu : Mem UInt8) (pduLen : Nat) (resp : Mem UInt8)

-- A record that the context is connected to.
def Clients.record (clients : Clients) (index : Nat) : Option (ClientCtx × Address × SharedBus) :=
  match clients.ctxs[index]? with
  | none => none
  | some ctx =>
    match ctx.initialized, ctx.sharedBus with
    | true, some bus => (getBus clients.reg bus).map fun record => (ctx, bus, record)
    | _, _ => none

-- The port when the mutex of the bus is free.
def Traffic.port (traffic : Traffic) (path : String) (line : Line) : Line :=
  match traffic.last path with
  | none => line
  | some ended => line.wake ended.time

def Op.perform (op : Op) (traffic : Traffic) : Traffic :=
  match op with
  | .lifecycle call => { traffic with clients := (call.perform traffic.clients).clients }
  | .setUnitId index unitId =>
    let ctxs := traffic.clients.ctxs.modify index (Client.setUnitId · unitId)
    { traffic with clients.ctxs := ctxs }
  | .transact index line req pdu pduLen resp =>
    match traffic.clients.record index with
    -- the pointer of a connected context leads to a record
    | none => traffic
    | some (ctx, bus, record) =>
      let result := Client.transact ⟨ctx, record, traffic.port record.path line⟩ req pdu pduLen resp
      if result.events = [] then
        traffic
      else
        { clients.reg := updateBus traffic.clients.reg bus fun _ => result.ses.bus
          clients.ctxs := traffic.clients.ctxs
          last := Function.update traffic.last record.path
            (some ⟨result.ses.unitId, result.ses.line.now⟩) }

def Traffic.run (traffic : Traffic) : List Op → Traffic
  | [] => traffic
  | op :: ops => Traffic.run (op.perform traffic) ops

-- Whether every operation of a run meets a condition on it and the state that it finds.
def Traffic.along (p : Op → Traffic → Bool) (traffic : Traffic) : List Op → Bool
  | [] => true
  | op :: ops => p op traffic && Traffic.along p (op.perform traffic) ops

end Rtu.Client
