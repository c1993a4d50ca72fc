import ModbusProtocol.Posix.Awaited
import ModbusProtocol.Tcp.Lemmas.Joined

/-!
This module contains the calls of which the reply arrives in time: they are answered, whatever late replies
stand in front of theirs.
-/

open Modbus Posix

namespace Tcp

namespace Client

section

variable {deadlineMs start : Nat}

end

end Client

variable {σ : Type}

namespace Client

end Client

variable {cfg : ServerConfig σ} {stack : Stack σ} {s s' : σ} {log : List (Nat × Event)} {k : Nat}
variable {line peer peer' : Line} {fresh : Client.ClientCtx} {calls : List Client.Call} {isOpen : Prop}

end Tcp
