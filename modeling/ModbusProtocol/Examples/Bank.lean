import ModbusProtocol.Data.Store
import ModbusProtocol.Pdu.Lemmas.Direct

/-!
This module contains banks of registers behind a read and a write callback, as the examples of a server have
them.
-/

open Modbus

-- Before the registers are read, they are refreshed.
structure RegisterBank (σ : Type) where
  size : Nat
  cells : σ → Mem UInt16
  refresh : σ → σ
  store : Mem UInt16 → σ → σ
  cells_store : ∀ m s, cells (store m s) = m
  size_le : size ≤ 65536

namespace RegisterBank

variable {σ : Type} (bank : RegisterBank σ)

def onRead (_functionCode : UInt8) (addr qty : UInt16) (out : Mem UInt16) (s : σ)
    : Pdu.ReadReturn UInt16 σ :=
  if addr.toNat + qty.toNat > bank.size then
    ⟨exIllegalDataAddress.toNat, out, s⟩
  else
    let s := bank.refresh s
    let out := (List.range qty.toNat).foldl (fun out i => out.set i (bank.cells s (addr.toNat + i))) out
    ⟨0, out, s⟩

def onWrite (addr qty : UInt16) (data : List UInt16) (s : σ) : Pdu.WriteReturn σ :=
  if addr.toNat + qty.toNat > bank.size then
    ⟨exIllegalDataAddress.toNat, s⟩
  else
    let cells := (List.range qty.toNat).foldl
      (fun cells i => cells.set (addr.toNat + i) (data.getD i 0)) (bank.cells s)
    ⟨0, bank.store cells s⟩

def handlers : Pdu.Handlers σ where
  readRegisters := some bank.onRead
  writeRegisters := some bank.onWrite
  readBits := none
  writeBits := none

theorem foldl_set_from (m : Mem UInt16) (addr n : Nat) (f : Nat → UInt16) (r : Nat)
    : (List.range n).foldl (fun m i => m.set (addr + i) (f i)) m r
        = if addr ≤ r ∧ r < addr + n then f (r - addr) else m r := by
  induction n with
  | zero =>
    rw [if_neg (by omega)]
    rfl
  | succ n ih =>
    rw [List.range_succ, List.foldl_append]
    change Mem.set _ (addr + n) (f n) r = _
    rw [Mem.set]
    by_cases hr : r = addr + n
    . rw [hr, Function.update_self, if_pos (by omega), Nat.add_sub_cancel_left]
    . rw [Function.update_of_ne hr, ih]
      by_cases hin : addr ≤ r ∧ r < addr + n
      . rw [if_pos hin, if_pos (by omega)]
      . rw [if_neg hin, if_neg (by omega)]

theorem onRead_state (fc : UInt8) (addr qty : UInt16) (out : Mem UInt16) (s : σ)
    : (bank.onRead fc addr qty out s).state
        = if addr.toNat + qty.toNat ≤ bank.size then bank.refresh s else s := by
  unfold onRead
  by_cases hroom : addr.toNat + qty.toNat > bank.size
  . rw [if_pos hroom, if_neg (by omega)]
  . rw [if_neg hroom, if_pos (Nat.le_of_not_lt hroom)]

theorem onWrite_cells (addr qty : UInt16) (data : List UInt16) (s : σ) (r : Nat)
    : bank.cells (bank.onWrite addr qty data s).state r
        = if addr.toNat + qty.toNat ≤ bank.size ∧ addr.toNat ≤ r ∧ r < addr.toNat + qty.toNat then
            data.getD (r - addr.toNat) 0
          else
            bank.cells s r := by
  unfold onWrite
  by_cases hroom : addr.toNat + qty.toNat > bank.size
  . rw [if_pos hroom, if_neg (by omega)]
  . rw [if_neg hroom]
    dsimp only
    rw [bank.cells_store, foldl_set_from]
    by_cases hin : addr.toNat ≤ r ∧ r < addr.toNat + qty.toNat
    . rw [if_pos hin, if_pos ⟨Nat.le_of_not_lt hroom, hin⟩]
    . rw [if_neg hin, if_neg (fun h => hin h.2)]

-- What a direct call returns: a register for each that is read.
theorem directCall_read (locals : Pdu.Locals) {fc : UInt8} (addr : UInt16) {qty : UInt16}
    (hfc : fc = funcReadHoldingRegisters ∨ fc = funcReadInputRegisters) (hpos : 1 ≤ qty.toNat)
    (hmax : qty.toNat ≤ maxReadRegisters) (out : Pdu.Out) (s : σ)
    : let direct := Pdu.directCall bank.handlers locals (.readRegisters fc addr qty hfc hpos hmax) out s
      if addr.toNat + qty.toNat ≤ bank.size then
        direct.rc = 0 ∧ direct.state = bank.refresh s ∧
          ∀ j < qty.toNat, direct.out.registers j = bank.cells (bank.refresh s) (addr.toNat + j)
      else
        direct.rc = 2 ∧ direct.state = s ∧ direct.out = out := by
  have hsize := bank.size_le
  dsimp only
  unfold Pdu.directCall Pdu.Handlers.callDirectly handlers
  dsimp only [Option.map_some]
  by_cases hroom : addr.toNat + qty.toNat ≤ bank.size
  . have hover : ¬(Pdu.Operation.readRegisters fc addr qty hfc hpos hmax).overflows := by
      change ¬addr.toNat + qty.toNat > 65536
      omega
    rw [if_pos hroom, if_neg hover]
    unfold onRead
    rw [if_neg (Nat.not_lt.mpr hroom)]
    dsimp only
    rw [if_pos rfl]
    refine ⟨rfl, rfl, ?_⟩
    intro j hj
    generalize bank.cells (bank.refresh s) = cells
    have hslice := Mem.slice_write_same locals.data 0
      ((List.range qty.toNat).map fun i => cells (addr.toNat + i))
    rw [List.length_map, List.length_range] at hslice
    rw [Mem.foldl_set, hslice]
    have hget := Mem.write_getElem out.registers 0 j
      ((List.range qty.toNat).map fun i => cells (addr.toNat + i)) (by simpa using hj)
    rw [Nat.zero_add] at hget
    dsimp only
    rw [hget, List.getElem_map, List.getElem_range]
  . rw [if_neg hroom]
    by_cases hover : (Pdu.Operation.readRegisters fc addr qty hfc hpos hmax).overflows
    . rw [if_pos hover]
      exact ⟨rfl, rfl, rfl⟩
    . rw [if_neg hover]
      unfold onRead
      rw [if_pos (Nat.lt_of_not_le hroom)]
      exact ⟨rfl, rfl, rfl⟩

-- The result code of an operation, which its registers decide. The bits have no callbacks.
def outcome (op : Pdu.Operation) : Int :=
  match op with
  | .readRegisters _ addr qty .. | .writeMultipleRegisters addr qty .. =>
    if addr.toNat + qty.toNat ≤ bank.size then 0 else 2
  | .writeSingleRegister addr _ => if addr.toNat + 1 ≤ bank.size then 0 else 2
  | _ => 1

theorem onWrite_rc (addr qty : UInt16) (data : List UInt16) (s : σ)
    : (bank.onWrite addr qty data s).rc = if addr.toNat + qty.toNat ≤ bank.size then 0 else 2 := by
  unfold onWrite
  by_cases hroom : addr.toNat + qty.toNat > bank.size
  . rw [if_pos hroom, if_neg (by omega)]
    rfl
  . rw [if_neg hroom, if_pos (Nat.le_of_not_lt hroom)]

theorem directCall_outcome (locals : Pdu.Locals) (op : Pdu.Operation) (out : Pdu.Out) (s : σ)
    : (Pdu.directCall bank.handlers locals op out s).rc = bank.outcome op := by
  have hsize := bank.size_le
  have hreturned : ∀ {addr qty : UInt16} {data : List UInt16} {calls : List Pdu.Call},
      (if (bank.onWrite addr qty data s).rc = 0 then
          (⟨0, out, (bank.onWrite addr qty data s).state, calls⟩ : Pdu.Result σ)
        else
          ⟨Pdu.mappedException (bank.onWrite addr qty data s).rc, out,
            (bank.onWrite addr qty data s).state, calls⟩).rc
        = if addr.toNat + qty.toNat ≤ bank.size then 0 else 2 := by
    intro addr qty data calls
    rw [bank.onWrite_rc]
    by_cases hroom : addr.toNat + qty.toNat ≤ bank.size
    . rw [if_pos hroom]
      rfl
    . rw [if_neg hroom]
      rfl
  cases op with
  | readBits fc addr qty hfc hpos hmax => rfl
  | readRegisters fc addr qty hfc hpos hmax =>
    have hread := bank.directCall_read locals addr hfc hpos hmax out s
    dsimp only [outcome] at hread ⊢
    split
    . next hroom =>
      rw [if_pos hroom] at hread
      exact hread.1
    . next hroom =>
      rw [if_neg hroom] at hread
      exact hread.1
  | writeSingleCoil addr value => rfl
  | writeSingleRegister addr value =>
    have hover : ¬(Pdu.Operation.writeSingleRegister addr value).overflows := fun h => h
    unfold Pdu.directCall Pdu.Handlers.callDirectly handlers
    dsimp only [Option.map_some]
    rw [if_neg hover]
    exact hreturned
  | writeMultipleCoils addr qty values hpos hmax => rfl
  | writeMultipleRegisters addr qty data hpos hmax =>
    unfold Pdu.directCall Pdu.Handlers.callDirectly handlers
    dsimp only [Option.map_some]
    by_cases hover : (Pdu.Operation.writeMultipleRegisters addr qty data hpos hmax).overflows
    . have hroom : ¬addr.toNat + qty.toNat ≤ bank.size := by
        change addr.toNat + qty.toNat > 65536 at hover
        omega
      rw [if_pos hover]
      exact (if_neg hroom).symm
    . rw [if_neg hover]
      exact hreturned

def readEleven : Pdu.Operation :=
  .readRegisters funcReadHoldingRegisters 0 11 Pdu.holding_registers (Nat.le_of_ble_eq_true rfl)
    (Nat.le_of_ble_eq_true rfl)

end RegisterBank
