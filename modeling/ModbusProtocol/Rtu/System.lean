import Mathlib.Data.List.FinRange
import Mathlib.Logic.Function.Basic
import ModbusProtocol.Posix.Wire
import ModbusProtocol.Rtu.Impl.Client
import ModbusProtocol.Rtu.Impl.Server

/-!
This module contains a serial line put together: the clients of one process that share its port, and the
servers at the other end. Every server hears the requests. On two wires it hears the replies of the other
servers as well, on four wires it does not.
-/

open Modbus Posix

namespace Rtu

-- A call of the client API, with the unit id that it is preceded by, where it is.
structure Client.Query where
  pause : Nat
  unitId : Option UInt8
  op : Pdu.Operation
  buf : Mem UInt8
  req : Mem UInt8
  resp : Mem UInt8
  out : Pdu.Out

def Client.Query.ready (query : Query) (ses : Session) : Session :=
  let ctx := match query.unitId with
    | none => ses.ctx
    | some unitId => setUnitId ses.ctx unitId
  ⟨ctx, ses.bus, ses.line.pass query.pause⟩

def Client.Query.make (query : Query) (ses : Session) : Performed :=
  perform (query.ready ses) query.op query.buf query.req query.resp query.out

structure System (n : Nat) (κ σ : Type) where
  ctxs : κ → Client.ClientCtx
  -- the record of the shared bus and the port behind its descriptor
  bus : Client.SharedBus
  line : Line
  servers : Fin n → Server σ
  -- the callbacks each of them has called
  calls : Fin n → List Pdu.Call

-- When a server hears a request, when it looks for it, and the same for what the others reply.
structure Hearing where
  request : Nat → Nat
  serving : List Nat
  replies : Nat → Nat
  overhearing : List Nat

-- A call of a client, and when the bytes reach the other end.
structure Attempt (n : Nat) (κ : Type) where
  client : κ
  query : Client.Query
  hearings : Fin n → Hearing
  back : Nat → Nat
  -- what comes from a server that takes the reply of another one for a request
  behind : Nat → Nat

structure Made where
  unitId : UInt8
  query : Client.Query
  result : Client.Performed

structure Wiring (n : Nat) (σ : Type) where
  cfgs : Fin n → ServerConfig σ
  buffers : Fin n → Stack σ
  twoWires : Bool

variable {n : Nat} {κ σ : Type}

def System.session (sys : System n κ σ) (client : κ) : Client.Session :=
  ⟨sys.ctxs client, sys.bus, sys.line⟩

-- The bytes of the request of a call.
def System.request (attempt : Attempt n κ) (sys : System n κ σ) : List UInt8 :=
  sys.line.written (attempt.query.make (sys.session attempt.client)).ses.line

def Server.feed (srv : Server σ) (times : Nat → Nat) (bytes : List UInt8) : Server σ :=
  { srv with line := srv.line.feed times bytes }

namespace Wiring

-- What a server makes of the request.
def serve (wiring : Wiring n σ) (attempt : Attempt n κ) (sys : System n κ σ) (i : Fin n) : Run σ :=
  runServer (wiring.cfgs i) (wiring.buffers i) (attempt.hearings i).serving
    ((sys.servers i).feed (attempt.hearings i).request (sys.request attempt))

def reply (wiring : Wiring n σ) (attempt : Attempt n κ) (sys : System n κ σ) (i : Fin n) : List UInt8 :=
  (sys.servers i).line.written (wiring.serve attempt sys i).server.line

def replies (wiring : Wiring n σ) (attempt : Attempt n κ) (sys : System n κ σ) : List UInt8 :=
  (List.finRange n).flatMap (wiring.reply attempt sys)

-- The replies that a server hears.
def foreign (wiring : Wiring n σ) (attempt : Attempt n κ) (sys : System n κ σ) (i : Fin n)
    : List UInt8 :=
  if wiring.twoWires then
    (List.finRange n).flatMap fun j => if j = i then [] else wiring.reply attempt sys j
  else
    []

-- What a server makes of the replies of the others.
def overhear (wiring : Wiring n σ) (attempt : Attempt n κ) (sys : System n κ σ) (i : Fin n) : Run σ :=
  runServer (wiring.cfgs i) (wiring.buffers i) (attempt.hearings i).overhearing
    ((wiring.serve attempt sys i).server.feed (attempt.hearings i).replies
      (wiring.foreign attempt sys i))

def behind (wiring : Wiring n σ) (attempt : Attempt n κ) (sys : System n κ σ) : List UInt8 :=
  (List.finRange n).flatMap fun i =>
    (wiring.serve attempt sys i).server.line.written (wiring.overhear attempt sys i).server.line

-- The session of the client with the replies on their way.
def replied (wiring : Wiring n σ) (attempt : Attempt n κ) (sys : System n κ σ) : Client.Session :=
  let ses := sys.session attempt.client
  { ses with line := ses.line.feed attempt.back (wiring.replies attempt sys) }

def step [DecidableEq κ] (wiring : Wiring n σ) (attempt : Attempt n κ) (sys : System n κ σ)
    : System n κ σ × List Made :=
  let ses := wiring.replied attempt sys
  let result := attempt.query.make ses
  ({ ctxs := Function.update sys.ctxs attempt.client result.ses.ctx
     bus := result.ses.bus
     line := result.ses.line.feed attempt.behind (wiring.behind attempt sys)
     servers := fun i => (wiring.overhear attempt sys i).server
     calls := fun i => sys.calls i ++ callsOf (wiring.serve attempt sys i).events ++
      callsOf (wiring.overhear attempt sys i).events },
    [⟨(attempt.query.ready ses).unitId, attempt.query, result⟩])

end Wiring

end Rtu
