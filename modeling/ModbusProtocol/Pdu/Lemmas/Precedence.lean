import ModbusProtocol.Pdu.Lemmas.Validation

/-!
This module contains the documented exceptions of a request, in their order, and which requests the dispatch
answers with another one.
-/

open Modbus

namespace Pdu

variable {σ : Type}

-- Byte count or length of a request of FC15 or FC16 disagree with its quantity.
def Disagrees (pdu : List UInt8) (limit count : Nat) : Prop :=
  pdu.length < 6 ∨ qtyOf pdu = 0 ∨ (qtyOf pdu).toNat > limit ∨ (pdu.getD 5 0).toNat ≠ count ∨
    pdu.length ≠ 6 + count

instance (pdu : List UInt8) (limit count : Nat) : Decidable (Disagrees pdu limit count) := by
  unfold Disagrees
  infer_instance

-- The request breaks a rule of its function code other than the end of the address space.
def Malformed (pdu : List UInt8) : Prop :=
  pdu.length < 5 ∨
    if fcOf pdu = funcReadCoils ∨ fcOf pdu = funcReadDiscreteInputs then
      qtyOf pdu = 0 ∨ (qtyOf pdu).toNat > maxReadBits
    else if fcOf pdu = funcReadHoldingRegisters ∨ fcOf pdu = funcReadInputRegisters then
      qtyOf pdu = 0 ∨ (qtyOf pdu).toNat > maxReadRegisters
    else if fcOf pdu = funcWriteSingleCoil then
      qtyOf pdu ≠ 0xFF00 ∧ qtyOf pdu ≠ 0x0000
    else if fcOf pdu = funcWriteSingleRegister then
      False
    else if fcOf pdu = funcWriteMultipleCoils then
      Disagrees pdu maxWriteBits (((qtyOf pdu).toNat + 7) / 8)
    else
      Disagrees pdu maxWriteRegisters ((qtyOf pdu).toNat * 2)

instance (pdu : List UInt8) : Decidable (Malformed pdu) := by
  unfold Malformed
  infer_instance

-- How many coils, inputs or registers the request is about.
def addressed (pdu : List UInt8) : Nat :=
  if fcOf pdu = funcWriteSingleCoil ∨ fcOf pdu = funcWriteSingleRegister then
    1
  else
    (qtyOf pdu).toNat

-- The exception that the documentation gives the request, if it gives it one.
def documentedException (h : Handlers σ) (pdu : List UInt8) : Option UInt8 :=
  if (isRead (fcOf pdu) = false ∧ isWrite (fcOf pdu) = false) ∨ h.present (fcOf pdu) = false then
    some exIllegalFunction
  else if Malformed pdu then
    some exIllegalDataValue
  else if (addrOf pdu).toNat + addressed pdu > 65536 then
    some exIllegalDataAddress
  else
    none

-- The exception with this code is the response, and the application has not been called.
structure Rejects (fc code : UInt8) (s : σ) (out : Outcome σ) : Prop where
  response : out.resp.slice 0 out.len = [fc ||| exceptionFlag, code]
  calls : out.calls = []
  state : out.state = s

theorem checkRange_value {addr qty : UInt16} {limit : Nat} (call : Call)
    (h : qty = 0 ∨ qty.toNat > limit)
    : checkRange addr qty limit call = .error exIllegalDataValue := by
  unfold checkRange
  rw [if_pos h]

theorem checkRange_address {addr qty : UInt16} {limit : Nat} (call : Call)
    (h : ¬(qty = 0 ∨ qty.toNat > limit)) (hrange : addr.toNat + qty.toNat > 65536)
    : checkRange addr qty limit call = .error exIllegalDataAddress := by
  unfold checkRange
  rw [if_neg h, rangeOverflows_eq, if_pos (decide_eq_true hrange)]

theorem checkLayout_value {pdu : List UInt8} {limit : Nat} (call : Call)
    (hlimit : isBitFc (fcOf pdu) = true ∧ limit = maxWriteBits
      ∨ isBitFc (fcOf pdu) = false ∧ limit = maxWriteRegisters)
    (h : Disagrees pdu limit (dataLen (fcOf pdu) (qtyOf pdu)))
    : checkLayout pdu limit call = .error exIllegalDataValue := by
  unfold Disagrees at h
  unfold checkLayout
  split
  . rfl
  . next hqty =>
    rw [not_or, not_or] at hqty
    have hfits := toNat_ofNat_dataLen (fcOf pdu) (Nat.le_of_not_lt hqty.2.2) hlimit
    rw [if_pos]
    rcases h with hlen | hzero | hover | hcount | hexact
    . omega
    . exact absurd hzero hqty.2.1
    . exact absurd hover hqty.2.2
    . left
      intro heq
      rw [heq, hfits] at hcount
      contradiction
    . exact .inr hexact

theorem checkLayout_address {pdu : List UInt8} {limit : Nat} (call : Call)
    (h : ¬Disagrees pdu limit (dataLen (fcOf pdu) (qtyOf pdu)))
    (hrange : (addrOf pdu).toNat + (qtyOf pdu).toNat > 65536)
    : checkLayout pdu limit call = .error exIllegalDataAddress := by
  unfold Disagrees at h
  simp only [not_or, Decidable.not_not] at h
  obtain ⟨hlen, hqty, hlimit, hcount, hexact⟩ := h
  unfold checkLayout
  rw [if_neg, if_neg, rangeOverflows_eq, if_pos (decide_eq_true hrange)]
  . simp only [not_or, Decidable.not_not]
    rw [← hcount, UInt8.ofNat_toNat]
    exact ⟨rfl, hcount ▸ hexact⟩
  . simp only [not_or]
    exact ⟨by omega, hqty, hlimit⟩

-- The function codes in the order in which the dispatch tells them apart.
theorem supported_cases {fc : UInt8} (h : isRead fc = true ∨ isWrite fc = true)
    : (fc = funcReadCoils ∨ fc = funcReadDiscreteInputs) ∨
      (fc = funcReadHoldingRegisters ∨ fc = funcReadInputRegisters) ∨ fc = funcWriteSingleCoil ∨
      fc = funcWriteSingleRegister ∨ fc = funcWriteMultipleCoils ∨ fc = funcWriteMultipleRegisters := by
  unfold isRead isWrite at h
  grind

theorem requestedCall_value {pdu : List UInt8} (hlen : 5 ≤ pdu.length)
    (hfc : isRead (fcOf pdu) = true ∨ isWrite (fcOf pdu) = true) (h : Malformed pdu)
    : requestedCall pdu = .error exIllegalDataValue := by
  have hrules := h.resolve_left (by omega)
  unfold requestedCall
  dsimp only
  rcases supported_cases hfc with hbits | hregs | hcoil | hreg | hcoils | hregisters
  . rw [if_pos hbits] at hrules ⊢
    apply checkRange_value _ hrules
  . have hbits : ¬(fcOf pdu = funcReadCoils ∨ fcOf pdu = funcReadDiscreteInputs) := by
      rcases hregs with hregs | hregs <;> rw [hregs] <;> decide
    rw [if_neg hbits, if_pos hregs] at hrules ⊢
    apply checkRange_value _ hrules
  . rw [hcoil] at hrules ⊢
    exact if_pos hrules
  . rw [hreg] at hrules
    exact absurd hrules not_false
  . have hlimit : isBitFc (fcOf pdu) = true := by
      rw [hcoils]
      rfl
    have hcount : dataLen (fcOf pdu) (qtyOf pdu) = ((qtyOf pdu).toNat + 7) / 8 := by
      unfold dataLen
      rw [if_pos hlimit]
      rfl
    have hvalue := fun call => @checkLayout_value pdu maxWriteBits call (.inl ⟨hlimit, rfl⟩)
    rw [hcount] at hvalue
    rw [hcoils] at hrules ⊢
    exact hvalue _ hrules
  . have hlimit : isBitFc (fcOf pdu) = false := by
      rw [hregisters]
      rfl
    have hcount : dataLen (fcOf pdu) (qtyOf pdu) = (qtyOf pdu).toNat * 2 := by
      unfold dataLen
      rw [hlimit]
      rfl
    have hvalue := fun call => @checkLayout_value pdu maxWriteRegisters call (.inr ⟨hlimit, rfl⟩)
    rw [hcount] at hvalue
    rw [hregisters] at hrules ⊢
    exact hvalue _ hrules

theorem requestedCall_address {pdu : List UInt8}
    (hfc : isRead (fcOf pdu) = true ∨ isWrite (fcOf pdu) = true) (h : ¬Malformed pdu)
    (hrange : (addrOf pdu).toNat + addressed pdu > 65536)
    : requestedCall pdu = .error exIllegalDataAddress := by
  have haddr := (addrOf pdu).toNat_lt
  have hrules := fun hbreaks => h (.inr hbreaks)
  unfold addressed at hrange
  unfold requestedCall
  dsimp only
  rcases supported_cases hfc with hbits | hregs | hcoil | hreg | hcoils | hregisters
  . have hsingle : ¬(fcOf pdu = funcWriteSingleCoil ∨ fcOf pdu = funcWriteSingleRegister) := by
      rcases hbits with hbits | hbits <;> rw [hbits] <;> decide
    rw [if_neg hsingle] at hrange
    rw [if_pos hbits] at hrules ⊢
    apply checkRange_address _ hrules hrange
  . have hsingle : ¬(fcOf pdu = funcWriteSingleCoil ∨ fcOf pdu = funcWriteSingleRegister) := by
      rcases hregs with hregs | hregs <;> rw [hregs] <;> decide
    have hbits : ¬(fcOf pdu = funcReadCoils ∨ fcOf pdu = funcReadDiscreteInputs) := by
      rcases hregs with hregs | hregs <;> rw [hregs] <;> decide
    rw [if_neg hsingle] at hrange
    rw [if_neg hbits, if_pos hregs] at hrules ⊢
    apply checkRange_address _ hrules hrange
  . rw [if_pos (.inl hcoil)] at hrange
    omega
  . rw [if_pos (.inr hreg)] at hrange
    omega
  . have hcount : dataLen (fcOf pdu) (qtyOf pdu) = ((qtyOf pdu).toNat + 7) / 8 := by
      unfold dataLen
      rw [hcoils]
      rfl
    have haddress := fun call => @checkLayout_address pdu maxWriteBits call
    rw [hcount] at haddress
    rw [hcoils] at hrules hrange ⊢
    exact haddress _ hrules hrange
  . have hcount : dataLen (fcOf pdu) (qtyOf pdu) = (qtyOf pdu).toNat * 2 := by
      unfold dataLen
      rw [hregisters]
      rfl
    have haddress := fun call => @checkLayout_address pdu maxWriteRegisters call
    rw [hcount] at haddress
    rw [hregisters] at hrules hrange ⊢
    exact haddress _ hrules hrange

theorem rejects_exception (fc code : UInt8) (s : σ) (resp : Mem UInt8)
    : Rejects fc code s ((Reply.exception fc code s []).store resp) := by
  constructor
  . exact Mem.slice_write_same resp 0 [fc ||| exceptionFlag, code]
  . rfl
  . rfl

theorem respond_unsupported (h : Handlers σ) (locals : Locals) {pdu : List UInt8} (s : σ)
    (hfc : isRead (fcOf pdu) = false ∧ isWrite (fcOf pdu) = false)
    : respond h locals pdu s = .exception (fcOf pdu) exIllegalFunction s [] := by
  unfold respond
  simp only [hfc.1, hfc.2, Bool.not_false, Bool.and_self, if_true]

theorem respond_short (h : Handlers σ) (locals : Locals) {pdu : List UInt8} (s : σ)
    (hfc : isRead (fcOf pdu) = true ∨ isWrite (fcOf pdu) = true) (hlen : pdu.length < 5)
    : respond h locals pdu s = .exception (fcOf pdu) exIllegalDataValue s [] := by
  have hsup : (!isRead (fcOf pdu) && !isWrite (fcOf pdu)) = false := by
    cases hfc with
    | inl hfc => simp [hfc]
    | inr hfc => simp [hfc]
  simp only [respond, hsup, hlen, Bool.false_eq_true, if_false, if_true]

-- The dispatch keeps to the documented exceptions unless the length of the request hides that there is no
-- callback for it.
theorem respond_documented (h : Handlers σ) (locals : Locals) {pdu : List UInt8} (s : σ) {code : UInt8}
    (hseen : ¬((isRead (fcOf pdu) = true ∨ isWrite (fcOf pdu) = true) ∧ h.present (fcOf pdu) = false ∧
      pdu.length < 5))
    (hcode : documentedException h pdu = some code)
    : respond h locals pdu s = .exception (fcOf pdu) code s [] := by
  unfold documentedException at hcode
  by_cases hunsupported : isRead (fcOf pdu) = false ∧ isWrite (fcOf pdu) = false
  . rw [if_pos (.inl hunsupported)] at hcode
    rw [respond_unsupported h locals s hunsupported, ← Option.some.inj hcode]
  . have hfc : isRead (fcOf pdu) = true ∨ isWrite (fcOf pdu) = true := by
      rw [not_and_or, Bool.not_eq_false, Bool.not_eq_false] at hunsupported
      exact hunsupported
    by_cases hlen : pdu.length < 5
    . have hpresent : h.present (fcOf pdu) = true := by
        apply eq_true_of_ne_false
        intro habsent
        exact hseen ⟨hfc, habsent, hlen⟩
      rw [if_neg (by simp [hunsupported, hpresent]), if_pos (.inl hlen)] at hcode
      rw [respond_short h locals s hfc hlen, ← Option.some.inj hcode]
    . have hfive : 5 ≤ pdu.length := Nat.le_of_not_lt hlen
      rw [respond_of_supported h locals pdu s hfc hfive]
      split at hcode
      . next habsent =>
        rw [habsent.resolve_left hunsupported, ← Option.some.inj hcode]
        rfl
      . next hpresent =>
        rw [not_or, Bool.not_eq_false] at hpresent
        rw [hpresent.2]
        split at hcode
        . next hmalformed =>
          rw [requestedCall_value hfive hfc hmalformed, ← Option.some.inj hcode]
          rfl
        . next hformed =>
          split at hcode
          . next hrange =>
            rw [requestedCall_address hfc hformed hrange, ← Option.some.inj hcode]
            rfl
          . contradiction

theorem handleRequest_precedence_iff (h : Handlers σ) (locals : Locals) (req resp : Mem UInt8)
    (reqLen : Nat) (s : σ) (hpos : 1 ≤ reqLen)
    : (∀ code, documentedException h (req.slice 0 reqLen) = some code →
        Rejects (req 0) code s (handleRequest h locals req reqLen resp s)) ↔
        ¬((isRead (req 0) = true ∨ isWrite (req 0) = true) ∧ h.present (req 0) = false ∧ reqLen < 5) := by
  have hfc : fcOf (req.slice 0 reqLen) = req 0 := fcOf_slice _ _ hpos
  have hlen : (req.slice 0 reqLen).length = reqLen := Mem.length_slice _ _ _
  rw [handleRequest_eq_respond h locals req resp reqLen s hpos, ← hfc]
  generalize req.slice 0 reqLen = pdu at hlen ⊢
  subst hlen
  constructor
  . intro hrejects hhidden
    obtain ⟨hsupported, habsent, hshort⟩ := hhidden
    have hfunction : documentedException h pdu = some exIllegalFunction := by
      unfold documentedException
      rw [if_pos (.inr habsent)]
    have hresponse := (hrejects _ hfunction).response
    rw [respond_short h locals s hsupported hshort,
      (rejects_exception _ exIllegalDataValue s resp).response] at hresponse
    simp at hresponse
  . intro hseen code hcode
    rw [respond_documented h locals s hseen hcode]
    apply rejects_exception

-- A server that takes no writes.
def readOnlyHandlers : Handlers Unit where
  readRegisters := some fun _ _ _ _ s => ⟨0, fun _ => 7, s⟩
  writeRegisters := none
  readBits := some fun _ _ _ out s => ⟨0, out, s⟩
  writeBits := none

-- It does not tell a master that sends the function code of FC06 alone.
theorem short_write_rejected_for_length
    : documentedException readOnlyHandlers [6] = some exIllegalFunction ∧
      (handleRequest readOnlyHandlers ⟨fun _ => 0, fun _ => 0⟩ (Mem.write (fun _ => 0) 0 [6]) 1
          (fun _ => 0) ()).resp.slice 0 2
        = [0x86, exIllegalDataValue] := by
  decide

theorem write_rejected_for_callback
    : Rejects 6 exIllegalFunction ()
        (handleRequest readOnlyHandlers ⟨fun _ => 0, fun _ => 0⟩
          (Mem.write (fun _ => 0) 0 [6, 0, 0, 0, 5]) 5 (fun _ => 0) ()) := by
  have hseen := (handleRequest_precedence_iff readOnlyHandlers ⟨fun _ => 0, fun _ => 0⟩
    (Mem.write (fun _ => 0) 0 [6, 0, 0, 0, 5]) (fun _ => 0) 5 () (by decide)).mpr
  apply hseen
  . intro hhidden
    exact absurd hhidden.2.2 (by decide)
  . decide

end Pdu
