import ModbusProtocol.Data.Scan
import ModbusProtocol.Pdu.Lemmas.Grammar

/-!
This module contains what the caller makes of the reply to an operation, whatever has carried the two of them.
-/

open Modbus

namespace Pdu

variable {σ : Type}

-- A call as its caller sees it.
structure RemoteCall where
  unitId : UInt8
  op : Operation
  out : Out

-- What is decoded is the answer that stands in memory, whatever stands behind it.
theorem decode_answer {resp resp' : Mem UInt8} {answer : List UInt8} {op : Operation}
    (h : resp.slice 0 answer.length = answer) (h' : resp'.slice 0 answer.length = answer)
    (hanswer : op.AnsweredBy answer 0) (out : Out)
    : op.decode resp out = op.decode resp' out := by
  apply op.decode_congr
  obtain ⟨-, -, hlen⟩ | ⟨code, hcode, hzero, -⟩ := hanswer.shape
  . rw [← hlen, h, h']
  . exfalso
    apply hcode
    apply UInt8.toNat_inj.mp
    simpa using hzero.symm

-- An exception is handed on as the return value.
theorem exception_result (op : Operation) {code : UInt8} (hcode : code ≠ 0) (resp : Mem UInt8)
    (out : Out) (s : σ) (calls : List Call)
    : Result.mk (check op.fc op.addr op.qty [op.fc ||| exceptionFlag, code])
        (if check op.fc op.addr op.qty [op.fc ||| exceptionFlag, code] = 0 then
          op.decode resp out
        else
          out) s calls
        =
      ⟨code.toNat, out, s, calls⟩ := by
  have hne : ¬(code.toNat : Int) = 0 := by
    intro hzero
    apply hcode
    apply UInt8.toNat_inj.mp
    simpa using hzero
  rw [check_exception _ _ _ _ hcode, if_neg hne]

-- The caller that has received the reply has done no less and no more than a direct call would have.
theorem respond_eq_direct (h : Handlers σ) (locals : Locals) (op : Operation) (resp : Mem UInt8)
    (out : Out) (s : σ)
    : let reply := respond h locals op.bytes s
      let rc := check op.fc op.addr op.qty reply.bytes
      Result.mk rc (if rc = 0 then op.decode (resp.write 0 reply.bytes) out else out) reply.state
        reply.calls
        =
      directCall h locals op out s := by
  dsimp only
  rw [op.respond_bytes]
  unfold directCall
  rw [op.callDirectly_eq h locals resp]
  cases hinvoke : h.invoke locals op.call s with
  | none => apply exception_result op (by decide)
  | some ans =>
    dsimp only [Option.map_some]
    split
    . apply exception_result op (by decide)
    . unfold Reply.returned
      by_cases hrc : ans.rc = 0
      . simp [hrc, op.check_successResponse hinvoke]
      . simp only [hrc, ne_eq, not_false_eq_true, ↓reduceIte]
        rw [← exceptionFromCallbackRc_eq]
        apply exception_result op (exceptionFromCallbackRc_ne_zero ans.rc)

-- The same for the memory in which the caller has found the reply.
theorem directCall_of_answer {h : Handlers σ} {locals : Locals} {op : Operation} {resp : Mem UInt8}
    {out : Out} {s : σ} {rc : Int} (hanswer : op.AnsweredBy (respond h locals op.bytes s).bytes rc)
    (hresp : resp.slice 0 (respond h locals op.bytes s).bytes.length
      = (respond h locals op.bytes s).bytes)
    : directCall h locals op out s
        =
      ⟨rc, if rc = 0 then op.decode resp out else out, (respond h locals op.bytes s).state,
        (respond h locals op.bytes s).calls⟩ := by
  rw [← respond_eq_direct h locals op resp out s, hanswer.check]
  split
  . next hok =>
    subst hok
    rw [decode_answer (Mem.slice_write_same resp 0 _) hresp hanswer]
  . rfl

theorem directCall_effect (h : Handlers σ) (locals : Locals) (op : Operation) (out : Out) (s : σ)
    : (directCall h locals op out s).state = (respond h locals op.bytes s).state ∧
      (directCall h locals op out s).calls = (respond h locals op.bytes s).calls := by
  have hdirect := respond_eq_direct h locals op (fun _ => 0) out s
  dsimp only at hdirect
  rw [← hdirect]
  exact ⟨rfl, rfl⟩

theorem mappedException_pos (rc : Int)
    : 0 < mappedException rc := by
  unfold mappedException
  split
  . next hmem =>
    simp at hmem
    omega
  . decide

theorem directCall_rc (h : Handlers σ) (locals : Locals) (op : Operation) (out : Out) (s : σ)
    : 0 ≤ (directCall h locals op out s).rc := by
  unfold directCall
  split
  . simp
  . split
    . simp
    . split
      . simp
      . apply Int.le_of_lt
        apply mappedException_pos

-- The reply to an operation is an answer to it.
theorem respond_answers (h : Handlers σ) (locals : Locals) (op : Operation) (out : Out) (s : σ)
    : op.AnsweredBy (respond h locals op.bytes s).bytes (directCall h locals op out s).rc := by
  have hdirect := respond_eq_direct h locals op (fun _ => 0) out s
  have hrc := congrArg Result.rc hdirect
  dsimp only at hrc
  rw [← hrc]
  apply answer_of_check
  rw [hrc]
  have hnonneg := directCall_rc h locals op out s
  intro herror
  rw [herror] at hnonneg
  contradiction

instance (h : Handlers σ) : Decidable h.Complete := by
  unfold Handlers.Complete
  infer_instance

-- An operation that a client can ask for is refused for its addresses, or it is up to the application.
theorem respond_executes {h : Handlers σ} (hcomplete : h.Complete) (locals : Locals) (op : Operation)
    (s : σ)
    : if op.overflows then
        respond h locals op.bytes s = .exception op.fc exIllegalDataAddress s []
      else
        (respond h locals op.bytes s).calls = [op.call] := by
  obtain ⟨ans, hinvoke⟩ := Option.isSome_iff_exists.mp (hcomplete.invoke locals op.call s)
  rw [op.respond_bytes, hinvoke]
  dsimp only
  split
  . rfl
  . unfold Reply.returned
    split
    . rfl
    . rfl

theorem calls_respond {h : Handlers σ} (hcomplete : h.Complete) (locals : Locals) (op : Operation) (s : σ)
    : (respond h locals op.bytes s).calls = if op.overflows then [] else [op.call] := by
  have hexecutes := respond_executes hcomplete locals op s
  split at hexecutes
  . next hover =>
    rw [if_pos hover, hexecutes]
    rfl
  . next hover => rw [if_neg hover, hexecutes]

theorem answer_overflows {h : Handlers σ} (hcomplete : h.Complete) (locals : Locals) {op : Operation}
    {s : σ} {rc : Int} (hover : op.overflows)
    (hanswer : op.AnsweredBy (respond h locals op.bytes s).bytes rc)
    : rc = 2 := by
  have hexecutes := respond_executes hcomplete locals op s
  rw [if_pos hover] at hexecutes
  rw [hexecutes] at hanswer
  have hcheck := hanswer.check
  unfold Reply.exception at hcheck
  rw [check_exception _ _ _ _ (by decide)] at hcheck
  rw [← hcheck]
  rfl

-- A call of the application as a step of it.
def Handlers.execute (h : Handlers σ) (locals : σ → Locals) (call : Call) (s : σ)
    : σ × List (Answer σ) :=
  match h.invoke (locals s) call s with
  | none => (s, [])
  | some ans => (ans.state, [ans])

-- Nothing but the calls of a dispatch changes the state.
theorem respond_effect (h : Handlers σ) (locals : σ → Locals) (pdu : List UInt8) (s : σ)
    : (respond h (locals s) pdu s).state
        = (transduce (h.execute locals) (respond h (locals s) pdu s).calls s).1 := by
  unfold respond
  dsimp only
  split
  . rfl
  . split
    . rfl
    . split
      . rfl
      . split
        . rfl
        . next call _ =>
          cases hinvoke : h.invoke (locals s) call s with
          | none => rfl
          | some ans =>
            have hexecute : (h.execute locals call s).1 = ans.state := by
              unfold Handlers.execute
              rw [hinvoke]
            dsimp only
            unfold Reply.returned
            split
            . exact hexecute.symm
            . exact hexecute.symm

end Pdu
