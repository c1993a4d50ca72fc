import ModbusProtocol.Data.Ledger

/-!
This module contains what a process acquires from the system and has to give back.
-/

namespace Posix

-- What a mutex or a thread belongs to: a context of the caller, or memory that has been allocated.
inductive Owner where
  | context (index : Nat)
  | memory (address : Nat)
  deriving DecidableEq, Repr

inductive Resource where
  | descriptor (fd : Int)
  | memory (address : Nat)
  | mutex (owner : Owner)
  | thread (owner : Owner)
  deriving DecidableEq, Repr

namespace Resource

-- The system chooses the descriptors and the addresses.
def Chosen : Resource → Prop
  | .descriptor _ | .memory _ => True
  | .mutex _ | .thread _ => False

instance : DecidablePred Chosen := fun resource => by
  cases resource <;> unfold Chosen <;> infer_instance

end Resource

abbrev Act := Ledger.Act Resource

end Posix
