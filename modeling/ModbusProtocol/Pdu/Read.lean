import ModbusProtocol.Pdu.Lemmas.Response
import ModbusProtocol.Pdu.Process

/-!
This module contains what the read functions of the two clients have in common: a session of type `S`, an
output buffer with entries of type `α`, and what may come of a call. A pointer is an option, `none` for
NULL.
-/

namespace Modbus

-- The indeterminate contents of the local arrays of a call.
structure ReadBuffers where
  pdu : Mem UInt8
  req : Mem UInt8
  resp : Mem UInt8

structure ReadResult (S α : Type) where
  rc : Int
  out : Option (Mem α)
  ses : Option S
  events : List Event

abbrev ReadFunction (S α : Type) : Type :=
  Option S → UInt16 → UInt16 → Option (Mem α) → ReadBuffers → ReadResult S α

-- A call without what its buffers hold.
structure ReadOutcome (S α : Type) where
  rc : Int
  values : List α
  ses : S
  events : List Event

variable {S α : Type}

def ReadOutcome.result (outcome : ReadOutcome S α) (out : Mem α) : ReadResult S α :=
  ⟨outcome.rc, some (if outcome.rc = 0 then out.write 0 outcome.values else out), some outcome.ses,
    outcome.events⟩

-- The values in the data of a response to a request for `qty` of them.
def registerValues (data : List UInt8) (_ : UInt16) : List UInt16 :=
  Pdu.registersOf data

def bitValues (data : List UInt8) (qty : UInt16) : List UInt8 :=
  (Bits.unpack data qty.toNat).map Bool.toUInt8

-- What a read may do. `Accepted ses addr qty ses' answer` says that the response PDU `answer` is what the
-- call has taken from the peer between `ses` and `ses'`.
structure ReadsOnlyAnswers (fc : UInt8) (decode : List UInt8 → UInt16 → List α)
    (Accepted : S → UInt16 → UInt16 → S → List UInt8 → Prop) (errArg : Int)
    (read : ReadFunction S α) : Prop where
  null : ∀ ses addr qty out buffers, ses = none ∨ out = none →
    read ses addr qty out buffers = ⟨errArg, out, ses, []⟩
  same : ∀ ses addr qty, ∃ outcome : ReadOutcome S α,
    (∀ out buffers, read (some ses) addr qty (some out) buffers = outcome.result out) ∧
    (outcome.rc = 0 → ∃ data, Accepted ses addr qty outcome.ses (fc :: UInt8.ofNat data.length :: data) ∧
      data.length = Pdu.dataLen fc qty ∧ outcome.values = decode data qty ∧
      outcome.values.length = qty.toNat) ∧
    (outcome.rc = errArg → outcome.ses = ses ∧ outcome.events = [])

-- A transaction with the response PDU that it leaves in its buffer.
structure Transaction (S : Type) where
  rc : Int
  resp : Mem UInt8
  ses : S
  events : List Event

def Transaction.read (t : Transaction S) (get : Mem UInt8 → Mem α → Mem α) (out : Mem α)
    : ReadResult S α :=
  ⟨t.rc, some (if t.rc = 0 then get t.resp out else out), some t.ses, t.events⟩

-- The transaction does not depend on what the buffers hold, and what it finds is an answer to `op`.
structure Determined (op : Pdu.Operation) (Accepted : S → List UInt8 → Prop) (errArg : Int) (ses : S)
    (t : ReadBuffers → Transaction S) (rc : Int) (answer : List UInt8) (ses' : S)
    (events : List Event) : Prop where
  returns : ∀ buffers, (t buffers).rc = rc
  leaves : ∀ buffers, (t buffers).ses = ses'
  emits : ∀ buffers, (t buffers).events = events
  holds : rc = 0 → ∀ buffers, (t buffers).resp.slice 0 answer.length = answer
  accepted : rc = 0 → Accepted ses' answer ∧ op.AnsweredBy answer 0
  refused : rc = errArg → ses' = ses ∧ events = []

theorem getRegisters_answer {resp : Mem UInt8} {fc count : UInt8} {data : List UInt8} {qty : UInt16}
    (hlen : data.length = qty.toNat * 2)
    (h : resp.slice 0 (fc :: count :: data).length = fc :: count :: data) (out : Mem UInt16)
    : Pdu.getRegisters resp qty out = out.write 0 (registerValues data qty) := by
  have hdata := congrArg (·.drop 2) h
  simp only [List.length_cons, Mem.drop_slice _ _ _ _ (Nat.le_add_left 2 _)] at hdata
  rw [Pdu.getRegisters_eq_write, ← hlen]
  unfold registerValues
  congr 2

theorem getBits_answer {resp : Mem UInt8} {fc count : UInt8} {data : List UInt8} {qty : UInt16}
    (hlen : data.length = Pdu.bitByteCount qty)
    (h : resp.slice 0 (fc :: count :: data).length = fc :: count :: data) (out : Mem UInt8)
    : Pdu.getBits resp qty out = out.write 0 (bitValues data qty) := by
  have hdata := congrArg (·.drop 2) h
  simp only [List.length_cons, Mem.drop_slice _ _ _ _ (Nat.le_add_left 2 _)] at hdata
  rw [Pdu.getBits_eq_write, ← hlen]
  unfold bitValues
  congr 3

theorem length_registerValues {data : List UInt8} {qty : UInt16} (h : data.length = qty.toNat * 2)
    : (registerValues data qty).length = qty.toNat := by
  exact (Pdu.flatMap_registersOf data qty.toNat h).2

theorem length_bitValues (data : List UInt8) (qty : UInt16)
    : (bitValues data qty).length = qty.toNat := by
  unfold bitValues
  rw [List.length_map, Bits.length_unpack]

-- An answer with which a read returns zero carries the data.
theorem read_data {op : Pdu.Operation} (hread : Pdu.isRead op.fc = true) {answer : List UInt8}
    (h : op.AnsweredBy answer 0)
    : ∃ data, answer = op.fc :: UInt8.ofNat data.length :: data ∧
        data.length = Pdu.dataLen op.fc op.qty := by
  generalize hrc : (0 : Int) = rc at h
  cases h with
  | read data _ hlen => exact ⟨data, rfl, hlen⟩
  | write hwrite =>
    unfold Pdu.isRead Pdu.isWrite at *
    grind
  | exception code hcode =>
    have hzero : code.toNat = 0 := by omega
    exact absurd (UInt8.toNat_inj.mp hzero) hcode

theorem Determined.outcome {op : Pdu.Operation} {Accepted : S → List UInt8 → Prop} {errArg : Int}
    {ses ses' : S} {t : ReadBuffers → Transaction S} {rc : Int} {answer : List UInt8}
    {events : List Event} (h : Determined op Accepted errArg ses t rc answer ses' events)
    (hread : Pdu.isRead op.fc = true) {get : Mem UInt8 → Mem α → Mem α} {decode : List UInt8 → List α}
    (hget : ∀ {resp : Mem UInt8} {count : UInt8} {data : List UInt8},
      data.length = Pdu.dataLen op.fc op.qty →
      resp.slice 0 (op.fc :: count :: data).length = op.fc :: count :: data →
      ∀ out, get resp out = out.write 0 (decode data))
    (hlen : ∀ {data : List UInt8}, data.length = Pdu.dataLen op.fc op.qty →
      (decode data).length = op.qty.toNat)
    : ∃ outcome : ReadOutcome S α,
        (∀ out buffers, (t buffers).read get out = outcome.result out) ∧
        (outcome.rc = 0 → ∃ data,
          Accepted outcome.ses (op.fc :: UInt8.ofNat data.length :: data) ∧
          data.length = Pdu.dataLen op.fc op.qty ∧ outcome.values = decode data ∧
          outcome.values.length = op.qty.toNat) ∧
        (outcome.rc = errArg → outcome.ses = ses ∧ outcome.events = []) := by
  refine ⟨⟨rc, decode (answer.drop 2), ses', events⟩, ?_, ?_, h.refused⟩
  . intro out buffers
    unfold Transaction.read ReadOutcome.result
    rw [h.returns, h.leaves, h.emits]
    dsimp only
    by_cases hok : rc = 0
    . obtain ⟨data, hanswer, hdata⟩ := read_data hread (h.accepted hok).2
      have hresp := h.holds hok buffers
      rw [hanswer] at hresp ⊢
      rw [if_pos hok, if_pos hok, hget hdata hresp]
      rfl
    . rw [if_neg hok, if_neg hok]
  . intro hok
    obtain ⟨haccepted, hanswered⟩ := h.accepted hok
    obtain ⟨data, hanswer, hdata⟩ := read_data hread hanswered
    rw [hanswer] at haccepted ⊢
    exact ⟨data, haccepted, hdata, rfl, hlen hdata⟩

-- What the read functions of both clients are: `transact` is the transaction of a read of `qty` entries
-- from `addr`, `get` takes the entries out of its response.
def readWith (errArg : Int) (limit : Nat) (get : UInt16 → Mem UInt8 → Mem α → Mem α)
    (transact : S → UInt16 → UInt16 → ReadBuffers → Transaction S)
    : ReadFunction S α := fun ses addr qty out buffers =>
  match ses, out with
  | some ses, some out =>
    if qty = 0 ∨ qty.toNat > limit then
      ⟨errArg, some out, some ses, []⟩
    else
      (transact ses addr qty buffers).read (get qty) out
  | ses, out => ⟨errArg, out, ses, []⟩

-- The data of a response is `decode`d into the first `qty` entries.
structure Decodes (fc : UInt8) (get : UInt16 → Mem UInt8 → Mem α → Mem α)
    (decode : List UInt8 → UInt16 → List α) : Prop where
  get : ∀ {qty : UInt16} {resp : Mem UInt8} {count : UInt8} {data : List UInt8},
    data.length = Pdu.dataLen fc qty →
    resp.slice 0 (fc :: count :: data).length = fc :: count :: data →
    ∀ out, get qty resp out = out.write 0 (decode data qty)
  length : ∀ {qty : UInt16} {data : List UInt8}, data.length = Pdu.dataLen fc qty →
    (decode data qty).length = qty.toNat

theorem decodes_registers {fc : UInt8} (hfc : fc = funcReadHoldingRegisters ∨ fc = funcReadInputRegisters)
    : Decodes fc (fun qty resp out => Pdu.getRegisters resp qty out) registerValues := by
  have hlen : ∀ qty, Pdu.dataLen fc qty = qty.toNat * 2 := by
    intro qty
    rcases hfc with rfl | rfl <;> rfl
  constructor
  . intro qty resp count data hdata h
    rw [hlen] at hdata
    apply getRegisters_answer hdata h
  . intro qty data hdata
    rw [hlen] at hdata
    apply length_registerValues hdata

theorem decodes_bits {fc : UInt8} (hfc : fc = funcReadCoils ∨ fc = funcReadDiscreteInputs)
    : Decodes fc (fun qty resp out => Pdu.getBits resp qty out) bitValues := by
  have hlen : ∀ qty, Pdu.dataLen fc qty = Pdu.bitByteCount qty := by
    intro qty
    rcases hfc with rfl | rfl <;> rfl
  constructor
  . intro qty resp count data hdata h
    rw [hlen] at hdata
    apply getBits_answer hdata h
  . intro qty data _
    apply length_bitValues

theorem readWith_answers {fc : UInt8} {errArg : Int} {limit : Nat}
    {get : UInt16 → Mem UInt8 → Mem α → Mem α} {decode : List UInt8 → UInt16 → List α}
    {Accepted : S → UInt16 → UInt16 → S → List UInt8 → Prop}
    {transact : S → UInt16 → UInt16 → ReadBuffers → Transaction S} (hneg : errArg ≠ 0)
    (hdecodes : Decodes fc get decode)
    (hdetermined : ∀ ses addr qty, 1 ≤ qty.toNat → qty.toNat ≤ limit →
      ∃ op rc answer ses' events, op.fc = fc ∧ op.qty = qty ∧ Pdu.isRead op.fc = true ∧
        Determined op (Accepted ses addr qty) errArg ses (transact ses addr qty) rc answer ses' events)
    : ReadsOnlyAnswers fc decode Accepted errArg (readWith errArg limit get transact) := by
  constructor
  . intro ses addr qty out buffers hnull
    unfold readWith
    cases hnull with
    | inl hnull => rw [hnull]
    | inr hnull =>
      rw [hnull]
      cases ses with
      | none => rfl
      | some ses => rfl
  . intro ses addr qty
    unfold readWith
    dsimp only
    by_cases hqty : qty = 0 ∨ qty.toNat > limit
    . simp only [if_pos hqty]
      refine ⟨⟨errArg, [], ses, []⟩, ?_, ?_, ?_⟩
      . intro out buffers
        unfold ReadOutcome.result
        rw [if_neg hneg]
      . intro hok
        contradiction
      . intro _
        exact ⟨rfl, rfl⟩
    . simp only [if_neg hqty]
      rw [not_or] at hqty
      have hpos : 1 ≤ qty.toNat := by
        apply Nat.one_le_iff_ne_zero.mpr
        intro hzero
        exact hqty.1 (UInt16.toNat_inj.mp hzero)
      obtain ⟨op, rc, answer, ses', events, hfc, hqty', hread, h⟩ :=
        hdetermined ses addr qty hpos (Nat.le_of_not_lt hqty.2)
      subst hfc hqty'
      exact h.outcome hread hdecodes.get hdecodes.length

end Modbus
