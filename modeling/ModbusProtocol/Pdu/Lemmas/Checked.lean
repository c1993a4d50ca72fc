import ModbusProtocol.Pdu.Impl.Checked
import ModbusProtocol.Pdu.Lemmas.Validation

/-!
This module contains that the checked dispatch makes no fault and does what the unchecked one does: neither
depends on anything behind the bytes of the request, and the response has a value in every byte.
-/

open Modbus

namespace Pdu.Checked

variable {σ : Type}

theorem getU16_ok {p : Object UInt8} {m : Mem UInt8} {n off : Nat} (h : p.Known m n)
    (hoff : off + 1 < n)
    : getU16 p off = .ok (Pdu.getU16 (m.shift off)) := by
  unfold getU16
  rw [h.load (by omega), Object.ok_bind, h.load hoff]
  rfl

theorem putU16_ok {p : Object UInt8} {m : Mem UInt8} {n off : Nat} (h : p.Known m n) (v : UInt16)
    (hoff : off ≤ n) (hsize : off + 1 < p.size)
    : ∃ p', putU16 p off v = .ok p' ∧ p'.size = p.size ∧
        p'.Known (m.write off (u16Bytes v)) (max n (off + 2)) := by
  obtain ⟨p₁, hfirst, hsize₁, hknown₁⟩ := h.store (v >>> 8).toUInt8 hoff (by omega)
  obtain ⟨p₂, hsecond, hsize₂, hknown₂⟩ :=
    hknown₁.store (i := off + 1) (v &&& 0xFF).toUInt8 (by omega) (by omega)
  refine ⟨p₂, ?_, hsize₂.trans hsize₁, ?_⟩
  . unfold putU16
    rw [hfirst, Object.ok_bind, hsecond]
  . have hwrite : m.write off (u16Bytes v)
        = (m.set off (v >>> 8).toUInt8).set (off + 1) (v &&& 0xFF).toUInt8 := by
      rw [Mem.set_eq_write, Mem.set_eq_write, Mem.write_write _ _ _ (by rfl)]
      rfl
    rw [hwrite]
    apply hknown₂.mono
    omega

theorem packBits_ok {values out : Object UInt8} {vm m : Mem UInt8} {qty : UInt16} {off : Nat}
    (hvalues : values.Known vm qty.toNat) (h : out.Known m off)
    (hsize : off + bitByteCount qty ≤ out.size)
    : ∃ out', packBits values qty out off = .ok out' ∧ out'.size = out.size ∧
        out'.Known (m.splice off (Pdu.packBits vm qty (m.shift off))) (off + bitByteCount qty) := by
  have hclear := @Object.foldlM_range (Object UInt8) (Mem UInt8)
    (fun j o t => o.size = out.size ∧ o.Known (m.splice off t) (off + j))
    (fun o j => o.store (off + j) 0) (fun t j => t.set j 0) out (m.shift off) (bitByteCount qty)
    ⟨rfl, h.congr (Mem.splice_shift m off)⟩
  obtain ⟨cleared, hrun, hsize', hcleared⟩ := hclear (by
    intro j hj o t ho
    obtain ⟨o', hstore, hsame, hknown⟩ := ho.2.store (i := off + j) 0 (Nat.le_refl _) (by omega)
    rw [Mem.splice_set] at hknown
    exact ⟨o', hstore, hsame.trans ho.1, hknown.mono (by omega)⟩)
  rw [Mem.foldl_set, List.map_const', List.length_range] at hcleared
  have hbits := @Object.foldlM_range (Object UInt8) (Mem UInt8)
    (fun _ o t => o.size = out.size ∧ o.Known (m.splice off t) (off + bitByteCount qty))
    (fun o i => do
      let value ← values.load i
      if value ≠ 0 then
        let byte ← o.load (off + i / 8)
        o.store (off + i / 8) (byte ||| (1 <<< UInt8.ofNat (i % 8)))
      else
        return o)
    (fun t i => if vm i ≠ 0 then t.set (i / 8) (t (i / 8) ||| (1 <<< UInt8.ofNat (i % 8))) else t)
    cleared _ qty.toNat ⟨hsize', hcleared⟩
  obtain ⟨packed, hrun', hsize'', hpacked⟩ := hbits (by
    intro i hi o t ho
    have hbyte : i / 8 < bitByteCount qty := by
      unfold bitByteCount
      omega
    rw [hvalues.load hi, Object.ok_bind]
    split
    . rw [ho.2.load (by omega), Object.ok_bind, Mem.splice_apply]
      obtain ⟨o', hstore, hsame, hknown⟩ := ho.2.store (i := off + i / 8)
        (t (i / 8) ||| (1 <<< UInt8.ofNat (i % 8))) (by omega) (by omega)
      rw [Mem.splice_set] at hknown
      exact ⟨o', hstore, hsame.trans ho.1, hknown.mono (by omega)⟩
    . exact ⟨o, rfl, ho⟩)
  refine ⟨packed, ?_, hsize'', hpacked⟩
  unfold packBits
  rw [hrun, Object.ok_bind]
  exact hrun'

theorem unpackBits_ok {packed out : Object UInt8} {m vm : Mem UInt8} {n off : Nat} {qty : UInt16}
    (h : packed.Known m n) (hoff : off + bitByteCount qty ≤ n) (hsize : qty.toNat ≤ out.size)
    : ∃ out', unpackBits packed off qty out = .ok out' ∧
        out'.Known (Pdu.unpackBits (m.shift off) qty vm) qty.toNat := by
  have hloop := @Object.foldlM_range (Object UInt8) (Mem UInt8)
    (fun i o t => o.size = out.size ∧ o.Known t i)
    (fun o i => do
      let byte ← packed.load (off + i / 8)
      o.store i ((byte >>> UInt8.ofNat (i % 8)) &&& 1))
    (fun t i => t.set i ((m.shift off (i / 8) >>> UInt8.ofNat (i % 8)) &&& 1))
    out vm qty.toNat ⟨rfl, Object.known_zero out vm⟩
  obtain ⟨out', hrun, -, hknown⟩ := hloop (by
    intro i hi o t ho
    have hbyte : off + i / 8 < n := by
      unfold bitByteCount at hoff
      omega
    rw [h.load hbyte, Object.ok_bind]
    obtain ⟨o', hstore, hsame, hknown⟩ := ho.2.store (i := i)
      ((m.shift off (i / 8) >>> UInt8.ofNat (i % 8)) &&& 1) (Nat.le_refl _) (by omega)
    exact ⟨o', hstore, hsame.trans ho.1, hknown.mono (by omega)⟩)
  exact ⟨out', hrun, hknown⟩

-- The checked function comes to the same as the unchecked one, in an array whose first bytes have the
-- values that are in memory.
def Refines (checked : Except Fault (Outcome σ)) (out : Pdu.Outcome σ) : Prop :=
  ∃ resp : Object UInt8, checked = .ok ⟨resp, out.len, out.state, out.calls⟩ ∧
    resp.Known out.resp out.len ∧ 2 ≤ out.len ∧ out.len ≤ maxPduLength

theorem buildException_refines {resp : Object UInt8} (hsize : resp.size = maxPduLength) (m : Mem UInt8)
    (fc code : UInt8) (s : σ) (calls : List Call)
    : Refines (buildException resp fc code s calls) (.of (Pdu.buildException m fc code) s calls) := by
  have hmax : maxPduLength = 253 := rfl
  obtain ⟨resp₁, hfirst, hsize₁, hknown₁⟩ :=
    (Object.known_zero resp m).store (i := 0) (fc ||| exceptionFlag) (Nat.le_refl _) (by omega)
  obtain ⟨resp₂, hsecond, hsize₂, hknown₂⟩ := hknown₁.store (i := 1) code (by omega) (by omega)
  refine ⟨resp₂, ?_, hknown₂.mono (by simp [Pdu.Outcome.of, Pdu.buildException]), ?_, ?_⟩
  . unfold buildException
    rw [hfirst, Object.ok_bind, hsecond]
    rfl
  . exact Nat.le_refl _
  . show 2 ≤ 253
    decide

theorem buildWriteEcho_refines {req resp : Object UInt8} {reqm : Mem UInt8} {n : Nat}
    (hreq : req.Known reqm n) (hlen : 5 ≤ n) (hsize : resp.size = maxPduLength) (m : Mem UInt8) (s : σ)
    (calls : List Call)
    : Refines (buildWriteEcho req resp s calls) (.of (Pdu.buildWriteEcho reqm m) s calls) := by
  have hmax : maxPduLength = 253 := rfl
  have hloop := @Object.foldlM_range (Object UInt8) (Mem UInt8)
    (fun i o t => o.size = resp.size ∧ o.Known t i)
    (fun o i => do
      let byte ← req.load i
      o.store i byte)
    (fun t i => t.set i (reqm i)) resp m writeResponseLen ⟨rfl, Object.known_zero resp m⟩
  obtain ⟨resp', hrun, -, hknown⟩ := hloop (by
    intro i hi o t ho
    have hfive : i < 5 := hi
    rw [hreq.load (Nat.lt_of_lt_of_le hfive hlen), Object.ok_bind]
    obtain ⟨o', hstore, hsame, hknown⟩ := ho.2.store (i := i) (reqm i) (Nat.le_refl _) (by omega)
    exact ⟨o', hstore, hsame.trans ho.1, hknown.mono (by omega)⟩)
  rw [Mem.foldl_set] at hknown
  refine ⟨resp', ?_, ?_, ?_, ?_⟩
  . unfold buildWriteEcho
    rw [hrun]
    rfl
  . apply hknown.congr
    unfold Pdu.Outcome.of Pdu.buildWriteEcho Mem.slice
    simp only [Nat.zero_add]
  . show 2 ≤ 5
    decide
  . show 5 ≤ 253
    decide

theorem putRegisters_ok {data : Object UInt16} {resp : Object UInt8} {dm : Mem UInt16} {m : Mem UInt8}
    {qty : UInt16} (hdata : data.Known dm qty.toNat) (h : resp.Known m 2)
    (hsize : 2 + qty.toNat * 2 ≤ resp.size)
    : ∃ resp', (List.range qty.toNat).foldlM (fun resp i => do
          let value ← data.load i
          putU16 resp (offsetReadData + i * 2) value) resp = .ok resp' ∧
        resp'.Known (m.splice 2 (putRegisters (m.shift 2) qty dm)) (2 + qty.toNat * 2) := by
  have hloop := @Object.foldlM_range (Object UInt8) (Mem UInt8)
    (fun i o t => o.size = resp.size ∧ o.Known t (2 + i * 2))
    (fun o i => do
      let value ← data.load i
      putU16 o (offsetReadData + i * 2) value)
    (fun t i => t.write (2 + 2 * i) (u16Bytes (dm i))) resp m qty.toNat ⟨rfl, h⟩
  obtain ⟨resp', hrun, -, hknown⟩ := hloop (by
    intro i hi o t ho
    rw [hdata.load hi, Object.ok_bind]
    obtain ⟨o', hput, hsame, hknown⟩ := @putU16_ok _ _ _ (2 + i * 2) ho.2 (dm i) (Nat.le_refl _)
      (by omega)
    rw [Nat.mul_comm i 2] at hput hknown
    rw [Nat.mul_comm i 2]
    exact ⟨o', hput, hsame.trans ho.1, hknown.mono (by omega)⟩)
  refine ⟨resp', hrun, ?_⟩
  apply hknown.congr
  rw [putRegisters_eq_write, Mem.splice_write_shift]
  rw [Mem.foldl_write (fun i => u16Bytes (dm i)) 2 (fun _ => rfl)]
  simp [Mem.slice, List.flatMap_map]

-- The function code and the byte count of a read response.
theorem readHead_ok {resp : Object UInt8} (hsize : resp.size = maxPduLength) (m : Mem UInt8)
    (fc count : UInt8)
    : ∃ resp₁ resp₂, resp.store offsetFc fc = .ok resp₁ ∧
        resp₁.store offsetReadByteCount count = .ok resp₂ ∧ resp₂.size = maxPduLength ∧
        resp₂.Known ((m.set offsetFc fc).set offsetReadByteCount count) 2 := by
  have hmax : maxPduLength = 253 := rfl
  obtain ⟨resp₁, hfirst, hsize₁, hknown₁⟩ :=
    (Object.known_zero resp m).store (i := 0) fc (Nat.le_refl _) (by omega)
  obtain ⟨resp₂, hsecond, hsize₂, hknown₂⟩ := hknown₁.store (i := 1) count (by omega) (by omega)
  exact ⟨resp₁, resp₂, hfirst, hsecond, hsize₂.trans (hsize₁.trans hsize), hknown₂.mono (by omega)⟩

theorem handleReadRegisters_refines (h : Handlers σ) (locals : Locals) (fc : UInt8)
    (addr qty : UInt16) {resp : Object UInt8} (hsize : resp.size = maxPduLength) (m : Mem UInt8) (s : σ)
    : Refines (handleReadRegisters h locals fc addr qty resp s)
        (Pdu.handleReadRegisters h locals fc addr qty m s) := by
  unfold handleReadRegisters Pdu.handleReadRegisters
  cases h.readRegisters with
  | none => apply buildException_refines hsize
  | some readRegisters =>
    dsimp only
    split
    . apply buildException_refines hsize
    . next hqty =>
      split
      . apply buildException_refines hsize
      . have hlimit : qty.toNat ≤ 125 := Nat.le_of_not_lt fun hover => hqty (.inr hover)
        rw [Object.lend_ok (by exact hlimit), Object.ok_bind, Object.view_fresh]
        generalize readRegisters fc addr qty locals.data s = ret
        split
        . apply buildException_refines hsize
        . rw [Object.narrow_ok (by omega)]
          obtain ⟨resp₁, resp₂, hfirst, hsecond, hsize₂, hhead⟩ :=
            readHead_ok hsize m fc (UInt8.ofNat (qty.toNat * 2))
          have hmax : maxPduLength = 253 := rfl
          have hdata := @Object.known_filled _ (.fresh maxReadRegisters) ret.out qty.toNat hlimit
          obtain ⟨resp₃, hloop, hknown⟩ := putRegisters_ok hdata hhead (by omega)
          refine ⟨resp₃, ?_, hknown, ?_, ?_⟩
          . rw [hfirst, Object.ok_bind, Object.ok_bind, hsecond, Object.ok_bind, hloop]
            rfl
          . show 2 ≤ 2 + qty.toNat * 2
            omega
          . show 2 + qty.toNat * 2 ≤ 253
            omega

theorem handleReadBits_refines (h : Handlers σ) (locals : Locals) (fc : UInt8) (addr qty : UInt16)
    {resp : Object UInt8} (hsize : resp.size = maxPduLength) (m : Mem UInt8) (s : σ)
    : Refines (handleReadBits h locals fc addr qty resp s)
        (Pdu.handleReadBits h locals fc addr qty m s) := by
  unfold handleReadBits Pdu.handleReadBits
  cases h.readBits with
  | none => apply buildException_refines hsize
  | some readBits =>
    dsimp only
    split
    . apply buildException_refines hsize
    . next hqty =>
      split
      . apply buildException_refines hsize
      . have hlimit : qty.toNat ≤ 2000 := Nat.le_of_not_lt fun hover => hqty (.inr hover)
        have hbits : (Object.mk maxReadBits (Mem.write (fun _ => none) 0
            (List.replicate qty.toNat (some 0)))).Known (fun _ => (0 : UInt8)) qty.toNat := by
          constructor
          . exact hlimit
          . intro i hi
            simp [Mem.write, hi]
        rw [Object.memset_fresh 0 (by exact hlimit), Object.ok_bind]
        rw [Object.lend_ok (by exact hlimit), Object.ok_bind, Object.view_write]
        generalize readBits fc addr qty _ s = ret
        split
        . apply buildException_refines hsize
        . have hcount : bitByteCount qty ≤ 250 := by
            unfold bitByteCount
            omega
          rw [Object.narrow_ok (by omega)]
          obtain ⟨resp₁, resp₂, hfirst, hsecond, hsize₂, hhead⟩ :=
            readHead_ok hsize m fc (UInt8.ofNat (bitByteCount qty))
          have hmax : maxPduLength = 253 := rfl
          obtain ⟨resp₃, hpack, -, hknown⟩ := packBits_ok (hbits.touched ret.out) hhead (by omega)
          refine ⟨resp₃, ?_, hknown, ?_, ?_⟩
          . rw [hfirst, Object.ok_bind, Object.ok_bind, hsecond, Object.ok_bind, hpack]
            rfl
          . show 2 ≤ 2 + bitByteCount qty
            omega
          . show 2 + bitByteCount qty ≤ 253
            omega

-- What becomes of the return value of a write callback.
theorem writeReturn_refines {req resp : Object UInt8} {reqm : Mem UInt8} {n : Nat}
    (hreq : req.Known reqm n) (hlen : 5 ≤ n) (hsize : resp.size = maxPduLength) (m : Mem UInt8)
    (fc : UInt8) (ret : WriteReturn σ) (calls : List Call)
    : Refines
        (if ret.rc ≠ 0 then
          buildException resp fc (exceptionFromCallbackRc ret.rc) ret.state calls
        else
          buildWriteEcho req resp ret.state calls)
        (if ret.rc ≠ 0 then
          .of (Pdu.buildException m fc (exceptionFromCallbackRc ret.rc)) ret.state calls
        else
          .of (Pdu.buildWriteEcho reqm m) ret.state calls) := by
  split
  . apply buildException_refines hsize
  . apply buildWriteEcho_refines hreq hlen hsize

theorem handleWriteSingleCoil_refines (h : Handlers σ) {req resp : Object UInt8} {reqm : Mem UInt8}
    {n : Nat} (hreq : req.Known reqm n) (hlen : 5 ≤ n) (hsize : resp.size = maxPduLength)
    (m : Mem UInt8) (s : σ)
    : Refines (handleWriteSingleCoil h req resp s) (Pdu.handleWriteSingleCoil h reqm m s) := by
  unfold handleWriteSingleCoil Pdu.handleWriteSingleCoil
  rw [hreq.load (by exact Nat.lt_of_lt_of_le (by decide) hlen), Object.ok_bind]
  rw [getU16_ok hreq (by exact Nat.lt_of_lt_of_le (by decide) hlen), Object.ok_bind]
  rw [getU16_ok hreq (by exact Nat.lt_of_lt_of_le (by decide) hlen)]
  cases h.writeBits with
  | none => apply buildException_refines hsize
  | some writeBits =>
    dsimp only
    split
    . apply buildException_refines hsize
    . rw [Object.ok_bind]
      apply writeReturn_refines hreq hlen hsize

theorem handleWriteSingleRegister_refines (h : Handlers σ) {req resp : Object UInt8}
    {reqm : Mem UInt8} {n : Nat} (hreq : req.Known reqm n) (hlen : 5 ≤ n)
    (hsize : resp.size = maxPduLength) (m : Mem UInt8) (s : σ)
    : Refines (handleWriteSingleRegister h req resp s) (Pdu.handleWriteSingleRegister h reqm m s) := by
  unfold handleWriteSingleRegister Pdu.handleWriteSingleRegister
  rw [hreq.load (by exact Nat.lt_of_lt_of_le (by decide) hlen), Object.ok_bind]
  rw [getU16_ok hreq (by exact Nat.lt_of_lt_of_le (by decide) hlen), Object.ok_bind]
  rw [getU16_ok hreq (by exact Nat.lt_of_lt_of_le (by decide) hlen)]
  cases h.writeRegisters with
  | none => apply buildException_refines hsize
  | some writeRegisters =>
    dsimp only
    rw [Object.ok_bind]
    apply writeReturn_refines hreq hlen hsize

-- Past the checks the data bytes are all there.
structure Complete (fc : UInt8) (qty : UInt16) (n : Nat) : Prop where
  coils : fc = funcWriteMultipleCoils → qty.toNat ≤ maxWriteBits ∧ n = 6 + bitByteCount qty
  registers : fc ≠ funcWriteMultipleCoils → qty.toNat ≤ maxWriteRegisters ∧ n = 6 + qty.toNat * 2

theorem checkWriteMultiple_ok {req : Object UInt8} {reqm : Mem UInt8} {n : Nat}
    (hreq : req.Known reqm n) (hlen : 5 ≤ n)
    : checkWriteMultiple req n = .ok (Pdu.checkWriteMultiple reqm n) ∧
        (Pdu.checkWriteMultiple reqm n = none →
          Complete (reqm offsetFc) (Pdu.getU16 (reqm.shift offsetQty)) n) := by
  unfold checkWriteMultiple Pdu.checkWriteMultiple
  rw [hreq.load (by exact Nat.lt_of_lt_of_le (by decide) hlen), Object.ok_bind]
  rw [getU16_ok hreq (by exact Nat.lt_of_lt_of_le (by decide) hlen), Object.ok_bind]
  rw [getU16_ok hreq (by exact Nat.lt_of_lt_of_le (by decide) hlen)]
  generalize Pdu.getU16 (reqm.shift offsetQty) = qty
  generalize Pdu.getU16 (reqm.shift offsetAddr) = addr
  dsimp only
  generalize hmax : (if reqm offsetFc = funcWriteMultipleCoils then maxWriteBits else maxWriteRegisters)
    = maxQty
  generalize hcount : (if reqm offsetFc = funcWriteMultipleCoils then bitByteCount qty else qty.toNat * 2)
    = byteCount
  split
  . exact ⟨rfl, fun h => by contradiction⟩
  . next hqty =>
    rw [not_or, not_or] at hqty
    obtain ⟨hsix, -, hover⟩ := hqty
    have hlimit : qty.toNat ≤ maxQty := Nat.le_of_not_lt hover
    have hbytes : byteCount < 256 := by
      rw [← hcount]
      rw [← hmax] at hlimit
      unfold bitByteCount
      split
      . next hfc =>
        rw [if_pos hfc] at hlimit
        have : qty.toNat ≤ 1968 := hlimit
        omega
      . next hfc =>
        rw [if_neg hfc] at hlimit
        have : qty.toNat ≤ 123 := hlimit
        omega
    rw [hreq.load (by exact Nat.lt_of_not_le hsix), Object.ok_bind, Object.narrow_ok hbytes,
      Object.ok_bind]
    split
    . exact ⟨rfl, fun h => by contradiction⟩
    . next hlayout =>
      rw [not_or, not_not, not_not] at hlayout
      rw [Object.ok_bind]
      split
      . exact ⟨rfl, fun h => by contradiction⟩
      . refine ⟨rfl, fun _ => ?_⟩
        have hexact := hlayout.2
        rw [← hcount] at hexact
        rw [← hmax] at hlimit
        constructor
        . intro hfc
          rw [if_pos hfc] at hlimit hexact
          exact ⟨hlimit, hexact⟩
        . intro hfc
          rw [if_neg hfc] at hlimit hexact
          exact ⟨hlimit, hexact⟩

theorem getRegisters_ok {req : Object UInt8} {reqm : Mem UInt8} {n : Nat} {qty : UInt16}
    (hreq : req.Known reqm n) (hlen : n = 6 + qty.toNat * 2) (hlimit : qty.toNat ≤ maxWriteRegisters)
    (dm : Mem UInt16)
    : ∃ data, (List.range qty.toNat).foldlM (fun (data : Object UInt16) i => do
          let value ← getU16 req (offsetWriteData + i * 2)
          data.store i value) (.fresh maxWriteRegisters) = .ok data ∧
        data.Known ((List.range qty.toNat).foldl (fun data i =>
          data.set i (Pdu.getU16 ((reqm.shift offsetWriteData).shift (i * 2)))) dm) qty.toNat := by
  have hloop := @Object.foldlM_range (Object UInt16) (Mem UInt16)
    (fun i o t => o.size = maxWriteRegisters ∧ o.Known t i)
    (fun (o : Object UInt16) i => do
      let value ← getU16 req (offsetWriteData + i * 2)
      o.store i value)
    (fun t i => t.set i (Pdu.getU16 ((reqm.shift offsetWriteData).shift (i * 2))))
    (.fresh maxWriteRegisters) dm qty.toNat ⟨rfl, Object.known_zero _ dm⟩
  obtain ⟨data, hrun, -, hknown⟩ := hloop (by
    intro i hi o t ho
    have hmax : maxWriteRegisters = 123 := rfl
    rw [@getU16_ok _ _ _ (offsetWriteData + i * 2) hreq (by dsimp only [offsetWriteData]; omega)]
    rw [Object.ok_bind]
    obtain ⟨o', hstore, hsame, hknown⟩ := ho.2.store (i := i)
      (Pdu.getU16 (reqm.shift (offsetWriteData + i * 2))) (Nat.le_refl _) (by omega)
    refine ⟨o', hstore, hsame.trans ho.1, (hknown.mono (by omega)).congr ?_⟩
    rw [Mem.shift_shift])
  exact ⟨data, hrun, hknown⟩

theorem handleWriteMultiple_refines (h : Handlers σ) (locals : Locals) {req resp : Object UInt8}
    {reqm : Mem UInt8} {n : Nat} (hreq : req.Known reqm n) (hlen : 5 ≤ n)
    (hsize : resp.size = maxPduLength) (m : Mem UInt8) (s : σ)
    : Refines (handleWriteMultiple h req n resp s) (Pdu.handleWriteMultiple h locals reqm n m s) := by
  obtain ⟨hcheck, hcomplete⟩ := checkWriteMultiple_ok hreq hlen
  have haddr : getU16 req offsetAddr = .ok (Pdu.getU16 (reqm.shift offsetAddr)) := by
    apply getU16_ok hreq
    exact Nat.lt_of_lt_of_le (by decide) hlen
  unfold handleWriteMultiple Pdu.handleWriteMultiple
  rw [hreq.load (by exact Nat.lt_of_lt_of_le (by decide) hlen), Object.ok_bind]
  rw [getU16_ok hreq (by exact Nat.lt_of_lt_of_le (by decide) hlen), Object.ok_bind]
  rw [hcheck, haddr]
  generalize Pdu.getU16 (reqm.shift offsetQty) = qty at *
  dsimp only
  split
  . next hfc =>
    cases h.writeBits with
    | none => apply buildException_refines hsize
    | some writeBits =>
      dsimp only
      rw [Object.ok_bind]
      cases hvalid : Pdu.checkWriteMultiple reqm n with
      | some ex => apply buildException_refines hsize
      | none =>
        obtain ⟨hlimit, hexact⟩ := (hcomplete hvalid).coils hfc
        obtain ⟨bits, hunpack, hknown⟩ := @unpackBits_ok req (.fresh maxWriteBits) reqm locals.bits n
          offsetWriteData qty hreq (Nat.le_of_eq hexact.symm) hlimit
        dsimp only
        rw [Object.ok_bind, hunpack, Object.ok_bind, hknown.loads (by omega), Object.ok_bind]
        apply writeReturn_refines hreq hlen hsize
  . next hfc =>
    cases h.writeRegisters with
    | none => apply buildException_refines hsize
    | some writeRegisters =>
      dsimp only
      rw [Object.ok_bind]
      cases hvalid : Pdu.checkWriteMultiple reqm n with
      | some ex => apply buildException_refines hsize
      | none =>
        obtain ⟨hlimit, hexact⟩ := (hcomplete hvalid).registers hfc
        obtain ⟨data, hload, hknown⟩ := getRegisters_ok hreq hexact hlimit locals.data
        dsimp only
        rw [Object.ok_bind, hload, Object.ok_bind, hknown.loads (by omega), Object.ok_bind]
        apply writeReturn_refines hreq hlen hsize

theorem handleRequest_refines (h : Handlers σ) (locals : Locals) {req resp : Object UInt8}
    {reqm : Mem UInt8} {n : Nat} (hreq : req.Known reqm n) (hpos : 1 ≤ n)
    (hsize : resp.size = maxPduLength) (m : Mem UInt8) (s : σ)
    : Refines (handleRequest h locals req n resp s) (Pdu.handleRequest h locals reqm n m s) := by
  unfold handleRequest Pdu.handleRequest
  rw [hreq.load (by exact hpos), Object.ok_bind]
  dsimp only
  split
  . apply buildException_refines hsize
  . split
    . apply buildException_refines hsize
    . next hshort =>
      have hlen : 5 ≤ n := Nat.le_of_not_lt hshort
      rw [getU16_ok hreq (by exact Nat.lt_of_lt_of_le (by decide) hlen), Object.ok_bind]
      rw [getU16_ok hreq (by exact Nat.lt_of_lt_of_le (by decide) hlen), Object.ok_bind]
      split
      . apply handleReadBits_refines _ _ _ _ _ hsize
      . split
        . apply handleReadRegisters_refines _ _ _ _ _ hsize
        . split
          . apply handleWriteSingleCoil_refines _ hreq hlen hsize
          . split
            . apply handleWriteSingleRegister_refines _ hreq hlen hsize
            . apply handleWriteMultiple_refines _ _ hreq hlen hsize

end Pdu.Checked
