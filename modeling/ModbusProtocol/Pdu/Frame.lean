import ModbusProtocol.Pdu.Lemmas.Codec

/-!
This module contains what the public frame builders and request parsers of the two transports have in
common. A pointer that may be `NULL` is an `Option`.
-/

open Modbus

namespace Modbus

-- The return value of a builder and the buffer as it leaves it.
structure Built where
  rc : Int
  buf : Option (Mem UInt8)

-- What a request parser stores through its output parameters, which are there.
structure Parsed where
  functionCode : UInt8
  address : UInt16
  quantity : UInt16
  deriving DecidableEq, Repr

-- The loops `for (i = 0; i < n; i++)` of the builders, which store the registers from `base` on.
def storeRegisters (buf : Mem UInt8) (base : Nat) (n : UInt16) (values : Mem UInt16) : Mem UInt8 :=
  (List.range n.toNat).foldl (fun buf i =>
    let offset := base + i * 2
    let buf := buf.set offset (values i >>> 8).toUInt8
    buf.set (offset + 1) (values i &&& 0xFF).toUInt8) buf

-- A call of a builder of requests with its arguments, those apart that say where the request goes.
inductive RequestCall where
  | basis (function addr : Int) (nb : UInt16)
  | fc06 (addr value : UInt16)
  | fc16 (addr numRegisters : UInt16) (values : Option (Mem UInt16))

/--
The call of `mb_pdu_build_*` that encodes the same request, unless the arguments are out of their range.
-/
def RequestCall.encoder : RequestCall → Option (Mem UInt8 → Mem UInt8 × Nat)
  | .basis function addr nb =>
    if 0 ≤ function ∧ function ≤ 255 ∧ 0 ≤ addr ∧ addr ≤ 65535 then
      some fun pdu => Pdu.buildRead pdu (UInt8.ofInt function) (UInt16.ofInt addr) nb
    else
      none
  | .fc06 addr value => some fun pdu => Pdu.buildWriteSingle pdu funcWriteSingleRegister addr value
  | .fc16 addr numRegisters (some values) =>
    if 1 ≤ numRegisters.toNat ∧ numRegisters.toNat ≤ maxWriteRegisters then
      some fun pdu => Pdu.buildWriteRegisters pdu addr numRegisters values
    else
      none
  | .fc16 _ _ none => none

theorem storeRegisters_eq_write (buf : Mem UInt8) (base : Nat) (n : UInt16) (values : Mem UInt16)
    : storeRegisters buf base n values
        =
      buf.write base ((values.slice 0 n.toNat).flatMap Pdu.u16Bytes) := by
  unfold storeRegisters
  have hstep : ∀ (buf : Mem UInt8) (i : Nat),
      (buf.set (base + i * 2) (values i >>> 8).toUInt8).set (base + i * 2 + 1)
        (values i &&& 0xFF).toUInt8 = buf.write (base + 2 * i) (Pdu.u16Bytes (values i)) := by
    intro buf i
    rw [Mem.set_eq_write, Mem.set_eq_write, Mem.write_write _ _ _ (by rfl), Nat.mul_comm 2]
    rfl
  simp only [hstep]
  rw [Mem.foldl_write (fun i => Pdu.u16Bytes (values i)) 2 (by simp)]
  simp [Mem.slice, List.flatMap_map]

theorem ofInt_toNat (v : UInt16)
    : UInt16.ofInt (v.toNat : Int) = v := by
  apply UInt16.toNat_inj.mp
  have := v.toNat_lt
  simp [UInt16.ofInt]
  omega

-- The high and the low byte of an address that is an `int`.
theorem addrBytes {addr : Int} (hmin : 0 ≤ addr) (hmax : addr ≤ 65535)
    : [(UInt32.ofInt addr >>> 8).toUInt8, (UInt32.ofInt addr &&& 0xFF).toUInt8]
        =
      Pdu.u16Bytes (UInt16.ofInt addr) := by
  obtain ⟨n, rfl⟩ := Int.eq_ofNat_of_zero_le hmin
  have hn : n ≤ 65535 := by omega
  have hlong : (UInt32.ofInt (n : Int)).toNat = n := by
    simp [UInt32.ofInt]
    omega
  have hshort : (UInt16.ofInt (n : Int)).toNat = n := by
    simp [UInt16.ofInt]
    omega
  unfold Pdu.u16Bytes
  congr 1
  . apply UInt8.toNat_inj.mp
    rw [Pdu.toNat_high, hshort]
    simp [hlong, Nat.shiftRight_eq_div_pow]
    omega
  . congr 1
    apply UInt8.toNat_inj.mp
    rw [Pdu.toNat_low, hshort]
    simp [hlong]
    rw [show (255 : Nat) = 2 ^ 8 - 1 by rfl, Nat.and_two_pow_sub_one_eq_mod]
    omega

namespace RequestCall

-- The PDU that a call asks for.
def bytes : RequestCall → List UInt8
  | .basis function addr nb => Pdu.header (UInt8.ofInt function) (UInt16.ofInt addr) nb
  | .fc06 addr value => Pdu.header funcWriteSingleRegister addr value
  | .fc16 addr numRegisters values =>
    Pdu.header funcWriteMultipleRegisters addr numRegisters ++
      UInt8.ofNat (numRegisters.toNat * 2) ::
        ((values.getD fun _ => 0).slice 0 numRegisters.toNat).flatMap Pdu.u16Bytes

theorem length_fc16 (addr numRegisters : UInt16) (values : Option (Mem UInt16))
    : (fc16 addr numRegisters values).bytes.length = 6 + numRegisters.toNat * 2 := by
  simp [bytes, Pdu.header]
  omega

theorem encoder_eq_write {call : RequestCall} {encode : Mem UInt8 → Mem UInt8 × Nat}
    (h : call.encoder = some encode) (pdu : Mem UInt8)
    : encode pdu = (pdu.write 0 call.bytes, call.bytes.length) := by
  unfold encoder at h
  split at h
  . next function addr nb =>
    split at h
    . injection h with h
      subst h
      exact Pdu.buildRead_eq pdu _ _ nb
    . contradiction
  . next addr value =>
    injection h with h
    subst h
    exact Pdu.buildRead_eq pdu _ addr value
  . next addr n values =>
    split at h
    . injection h with h
      subst h
      dsimp only
      rw [Pdu.buildWriteRegisters_eq, length_fc16]
      rfl
    . contradiction
  . contradiction

theorem length_bytes_le {call : RequestCall} (h : call.encoder.isSome)
    : call.bytes.length ≤ 252 := by
  cases call with
  | basis function addr nb => simp [bytes, Pdu.header]
  | fc06 addr value => simp [bytes, Pdu.header]
  | fc16 addr n values =>
    unfold encoder at h
    rw [length_fc16]
    split at h
    . contradiction
    . contradiction
    . next heq =>
      injection heq with haddr hn hvalues
      subst hn
      split at h
      . next hrange =>
        have hmax : _ ≤ 123 := hrange.2
        omega
      . contradiction
    . contradiction

end RequestCall

end Modbus
