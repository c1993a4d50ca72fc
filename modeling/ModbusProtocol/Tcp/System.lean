import ModbusProtocol.Posix.Wire
import ModbusProtocol.Tcp.Host
import ModbusProtocol.Tcp.Lemmas.Replies

/-!
This module contains the clients of one server. Each of them makes its calls at its own pace, and what is
written at one end of a connection is read at the other at any time later, or is lost when the connection is
closed.
-/

open Modbus Posix

namespace Tcp

namespace Client

-- The session behind the calls.
def lastSession (ses : Session) : List Call → Session
  | [] => ses
  | call :: calls => lastSession (call.make ses).ses calls

-- How a client connects and the calls it makes until it connects again, where `line` is its end of the
-- connection with all that ever comes there.
structure Stay where
  env : ClientEnv
  owner : Owner
  cfg : ClientConfig
  line : Line
  calls : List Call

structure Visit where
  first : Session
  calls : List Call

def Visit.last (visit : Visit) : Session :=
  lastSession visit.first visit.calls

def Visit.made (visit : Visit) : List Exchange :=
  runCalls visit.first visit.calls

-- A client disconnects before it connects again. Its transaction ids begin anew.
def visits (ctx : ClientCtx) : List Stay → List Visit
  | [] => []
  | stay :: later =>
    let (ctx, _) := disconnect stay.owner ctx
    let (_, ctx, _) := connect stay.env stay.owner ctx stay.cfg
    let visit : Visit := ⟨⟨ctx, stay.line⟩, stay.calls⟩
    visit :: visits visit.last.ctx later

end Client

-- What comes at one end of a connection has been written at the other.
structure Joined (line line' peer peer' : Line) : Prop where
  requests : peer.bytes <+: line.written line'
  replies : line.bytes <+: peer.written peer'

variable {ι σ : Type}

-- The clients of a server with what they have done since they had not connected yet.
def visitAt (clients : ι → List Client.Stay) (place : ι × Nat) : Option Client.Visit :=
  (Client.visits .zeroed (clients place.1))[place.2]?

def madeAt (clients : ι → List Client.Stay) (place : ι × Nat) : List Client.Exchange :=
  match visitAt clients place with
  | none => []
  | some visit => visit.made

-- Each connection that the server has accepted ends at a client, `ends` says where, and nothing comes to a
-- client on a connection that the server has not accepted.
structure Connects (clients : ι → List Client.Stay) (ends : Nat → ι × Nat) (host : Host σ) : Prop where
  distinct : ∀ j < host.accepted.length, ∀ k < host.accepted.length, ends j = ends k → j = k
  joined : ∀ k peer, host.accepted[k]? = some peer → ∃ visit, visitAt clients (ends k) = some visit ∧
    Joined visit.first.line visit.last.line peer (host.lines k)
  silent : ∀ place visit, visitAt clients place = some visit →
    (∀ k < host.accepted.length, ends k ≠ place) → visit.first.line.bytes = []

end Tcp
