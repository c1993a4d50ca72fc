import ModbusProtocol.Pdu.Impl.Dispatch

/-!
This module contains what the `on_process` callbacks of the two transports have in common. `Stack` holds
the indeterminate contents of the local arrays of a call. They depend on the state that the call finds the
application in: as that may count the calls of its callbacks, no call has to find what an earlier one found.
What a call does besides changing its state is recorded in order as events.
-/

namespace Modbus

structure Stack (σ : Type) where
  locals : σ → Pdu.Locals
  adu : σ → Mem UInt8
  resp : σ → Mem UInt8

inductive Event where
  -- a complete request has been taken from the stream
  | frame (adu : List UInt8)
  | call (call : Pdu.Call)
  | txEnable (enable : Bool)
  | send (adu : List UInt8)
  deriving DecidableEq, Repr

def framesOf (events : List Event) : List (List UInt8) :=
  events.filterMap fun event =>
    match event with
    | .frame adu => some adu
    | _ => none

def callsOf (events : List Event) : List Pdu.Call :=
  events.filterMap fun event =>
    match event with
    | .call call => some call
    | _ => none

def adusOf (events : List Event) : List (List UInt8) :=
  events.filterMap fun event =>
    match event with
    | .send adu => some adu
    | _ => none

-- The bytes that the events of a run put on the wire.
def transmitted (events : List Event) : List UInt8 :=
  events.flatMap fun event =>
    match event with
    | .send adu => adu
    | _ => []

theorem framesOf_append (events events' : List Event)
    : framesOf (events ++ events') = framesOf events ++ framesOf events' := by
  apply List.filterMap_append

theorem framesOf_calls (calls : List Pdu.Call)
    : framesOf (calls.map .call) = [] := by
  unfold framesOf
  rw [List.filterMap_map]
  simp

theorem callsOf_append (events events' : List Event)
    : callsOf (events ++ events') = callsOf events ++ callsOf events' := by
  apply List.filterMap_append

theorem callsOf_calls (calls : List Pdu.Call)
    : callsOf (calls.map .call) = calls := by
  unfold callsOf
  rw [List.filterMap_map]
  apply List.filterMap_some

theorem adusOf_append (events events' : List Event)
    : adusOf (events ++ events') = adusOf events ++ adusOf events' := by
  apply List.filterMap_append

theorem adusOf_calls (calls : List Pdu.Call)
    : adusOf (calls.map .call) = [] := by
  unfold adusOf
  rw [List.filterMap_map]
  simp

theorem transmitted_append (events events' : List Event)
    : transmitted (events ++ events') = transmitted events ++ transmitted events' := by
  apply List.flatMap_append

theorem transmitted_calls (calls : List Pdu.Call)
    : transmitted (calls.map .call) = [] := by
  unfold transmitted
  rw [List.flatMap_map]
  simp

end Modbus
