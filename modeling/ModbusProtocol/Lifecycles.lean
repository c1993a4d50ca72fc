import ModbusProtocol.Rtu.Lemmas.Lifecycle
import ModbusProtocol.Tcp.Lemmas.Lifecycle

/-!
This module contains the components that a caller starts and stops, and that each of them gives back what
it has acquired.
-/

open Posix

-- The owner is the context that the caller hands over.
inductive Component where
  | tcpTransport (owner : Owner)
  | rtuTransport (owner : Owner)
  | tcpServer (owner : Owner)
  | rtuServer (owner : Owner)
  | tcpClient (owner : Owner)
  -- a client beside others that may share its bus, as many as a record can count
  | rtuClient (others : Fin (2 ^ 32 - 1))

def Component.lifecycle : Component → Ledger.Lifecycle Resource
  | .tcpTransport owner => Tcp.transportLifecycle owner
  | .rtuTransport owner => Rtu.transportLifecycle owner
  | .tcpServer owner => Tcp.serverLifecycle owner
  | .rtuServer owner => Rtu.serverLifecycle owner
  | .tcpClient owner => Tcp.Client.lifecycle owner
  | .rtuClient others => Rtu.Client.lifecycle others

theorem lifecycles_balanced (component : Component)
    : component.lifecycle.Balanced Resource.Chosen := by
  cases component with
  | tcpTransport owner => exact (Tcp.transport_lawful owner).balanced
  | rtuTransport owner => exact (Rtu.transport_lawful owner).balanced
  | tcpServer owner => exact (Tcp.server_lawful owner).balanced
  | rtuServer owner => exact (Rtu.server_lawful owner).balanced
  | tcpClient owner => exact (Tcp.Client.client_lawful owner).balanced
  | rtuClient others =>
    have hothers : others.val + 1 < 2 ^ 32 := by omega
    exact (Rtu.Client.client_lawful hothers).balanced
