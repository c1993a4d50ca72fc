import ModbusProtocol.Posix.Schedule
import ModbusProtocol.Rtu.Lemmas.Accept

/-!
This module contains on which schedules the RTU client keeps to the deadline of a request. It does on all of
them unless it reads back its own request: then the deadline is fixed a second time behind the echo.
-/

open Modbus Posix

namespace Rtu.Client

-- A wait on a prompt line: interruptions make no difference.
theorem waitLoop_prompt (deadlineUs : Nat) {fuel : Nat} {line : Line} (h : Line.Prompt line)
    (hfuel : line.turns.length < fuel)
    : (deadlineUs ≤ line.now / 1000 →
        (waitLoop deadlineUs fuel line).1 = -2 ∧
          Line.Idles line line.now (waitLoop deadlineUs fuel line).2) ∧
      (line.now / 1000 < deadlineUs →
        ∀ woken, await (some ((deadlineUs - line.now / 1000) * 1000)) line.now line.incoming = woken →
          (waitLoop deadlineUs fuel line).1 = (if woken.1 then 0 else -2) ∧
            Line.Idles line woken.2 (waitLoop deadlineUs fuel line).2) := by
  induction fuel generalizing line with
  | zero => omega
  | succ fuel ih =>
    have hclock : Line.Idles line line.now (monotonicUs line).2 := h.clock
    have hus : (monotonicUs line).1 = line.now / 1000 := by
      unfold monotonicUs
      exact congrArg (· / 1000) hclock.now
    have hturns := (monotonicUs_took line).turns.length_le
    unfold waitLoop
    dsimp only
    rw [hus]
    generalize (monotonicUs line).2 = line₁ at hclock hturns
    constructor
    . intro hexpired
      rw [if_pos hexpired]
      exact ⟨rfl, hclock⟩
    . intro hlt woken hwoken
      rw [if_neg (by omega)]
      have hselect : line₁.select ((deadlineUs - line.now / 1000) * 1000)
          = line₁.poll (some ((deadlineUs - line.now / 1000) * 1000)) := rfl
      have hpoll := hclock.prompt.poll (some ((deadlineUs - line.now / 1000) * 1000))
      have hpollTurns := @Line.poll_turns line₁ (some ((deadlineUs - line.now / 1000) * 1000))
      rw [hclock.now, hclock.incoming, hwoken] at hpoll
      rw [hselect]
      generalize line₁.poll (some ((deadlineUs - line.now / 1000) * 1000)) = result
        at hpoll hpollTurns
      obtain ⟨outcome, line₂⟩ := result
      dsimp only at hpoll hpollTurns
      obtain ⟨hintr, hidles⟩ | ⟨hready, hidles⟩ := hpoll
      . subst hintr
        have hrest := hclock.trans hidles
        have hfewer := hpollTurns rfl
        dsimp only
        have hlt' : line₂.now / 1000 < deadlineUs := by
          rw [hrest.now]
          exact hlt
        obtain ⟨hrc, hagain⟩ := (@ih line₂ hrest.prompt (by omega)).2 hlt' woken
          (by rw [hrest.now, hrest.incoming, hwoken])
        exact ⟨hrc, hrest.trans hagain⟩
      . have hrest := hclock.trans hidles
        subst hready
        cases woken.1 with
        | true => exact ⟨rfl, hrest⟩
        | false => exact ⟨rfl, hrest⟩

-- What a read of `len` bytes before a deadline makes of a prompt line, `whole` says whether they have all
-- been read.
structure Reads (deadlineUs len : Nat) (line : Line) (whole : Prop) (after : Line) : Prop where
  prompt : Line.Prompt after
  waited : Line.Waited line after
  bound : line.now / 1000 ≤ deadlineUs → after.now / 1000 ≤ deadlineUs
  there : whole → len ≤ line.incoming.length ∧ after.now = due line.now (line.incoming.take len) ∧
    after.incoming = line.incoming.drop len
  missing : ¬whole → deadlineUs ≤ after.now / 1000 ∧
    (len ≤ line.incoming.length → deadlineUs ≤ due line.now (line.incoming.take len) / 1000)

theorem Reads.nothing {deadlineUs : Nat} {line : Line} (h : Line.Prompt line)
    : Reads deadlineUs 0 line True line := by
  constructor
  . exact h
  . exact ⟨0, rfl, Nat.le_refl _⟩
  . exact id
  . intro _
    exact ⟨Nat.zero_le _, rfl, rfl⟩
  . intro hnone
    exact absurd trivial hnone

theorem Reads.behind {deadlineUs len : Nat} {line line₁ after : Line} {whole : Prop}
    (h : Reads deadlineUs len line₁ whole after) (hidles : Line.Idles line line.now line₁)
    : Reads deadlineUs len line whole after := by
  constructor
  . exact h.prompt
  . exact (hidles.waited (Nat.le_refl _)).trans h.waited
  . rw [← hidles.now]
    exact h.bound
  . rw [← hidles.now, ← hidles.incoming]
    exact h.there
  . rw [← hidles.now, ← hidles.incoming]
    exact h.missing

-- One read behind another.
theorem Reads.trans {deadlineUs j k : Nat} {line mid after : Line} {whole : Prop}
    (h : Reads deadlineUs j line True mid) (h' : Reads deadlineUs k mid whole after)
    : Reads deadlineUs (j + k) line whole after := by
  obtain ⟨hle, hnow, hincoming⟩ := h.there trivial
  have hsplit : line.incoming.take (j + k) = line.incoming.take j ++ mid.incoming.take k := by
    rw [List.take_add, hincoming]
  constructor
  . exact h'.prompt
  . exact h.waited.trans h'.waited
  . exact h'.bound ∘ h.bound
  . intro hwhole
    obtain ⟨hle', hnow', hincoming'⟩ := h'.there hwhole
    rw [hincoming, List.length_drop] at hle'
    refine ⟨by omega, ?_, ?_⟩
    . rw [hnow', hnow, hsplit, due_append]
    . rw [hincoming', hincoming, List.drop_drop]
  . intro hnot
    obtain ⟨hexpired, hlate⟩ := h'.missing hnot
    refine ⟨hexpired, ?_⟩
    intro hlen
    rw [hsplit, due_append, ← hnow]
    apply hlate
    rw [hincoming, List.length_drop]
    omega

-- What is not read whole is not read on.
theorem Reads.short {deadlineUs j : Nat} {line after : Line} {whole : Prop}
    (h : Reads deadlineUs j line whole after) (hnot : ¬whole) (k : Nat)
    : Reads deadlineUs (j + k) line False after := by
  obtain ⟨hexpired, hlate⟩ := h.missing hnot
  constructor
  . exact h.prompt
  . exact h.waited
  . exact h.bound
  . exact False.elim
  . intro _
    refine ⟨hexpired, ?_⟩
    intro hlen
    have hdue := hlate (by omega)
    rw [List.take_add, due_append]
    exact Nat.le_trans hdue (Nat.div_le_div_right (le_due _ _))

-- Whether `k` bytes can be read, each wait for the next of them beginning before the deadline. What is there
-- along with the byte before it needs no wait.
def Reaches (deadlineUs : Nat) : Nat → Nat → List Arrival → Prop
  | _, 0, _ => True
  | _, _ + 1, [] => False
  | now, k + 1, next :: later =>
    if next.time ≤ now then
      Reaches deadlineUs now k later
    else
      now / 1000 < deadlineUs ∧ next.time ≤ now + (deadlineUs - now / 1000) * 1000 ∧
        Reaches deadlineUs next.time k later

theorem reaches_arrived {deadlineUs now j k : Nat} {arrivals : List Arrival} (hj : j ≤ k)
    (hlen : j ≤ arrivals.length) (h : ∀ arrival ∈ arrivals.take j, arrival.time ≤ now)
    : Reaches deadlineUs now k arrivals ↔ Reaches deadlineUs now (k - j) (arrivals.drop j) := by
  induction j generalizing k arrivals with
  | zero => rfl
  | succ j ih =>
    cases arrivals with
    | nil => simp at hlen
    | cons next later =>
      rw [List.take_succ_cons, List.forall_mem_cons] at h
      obtain ⟨k, rfl⟩ : ∃ n, k = n + 1 := Nat.exists_eq_succ_of_ne_zero (by omega)
      rw [Reaches, if_pos h.1, List.drop_succ_cons, Nat.add_sub_add_right]
      apply ih
      . omega
      . exact Nat.le_of_succ_le_succ hlen
      . exact h.2

theorem reaches_await {deadlineUs now k : Nat} {arrivals : List Arrival} {woken : Bool × Nat}
    (hlt : now / 1000 < deadlineUs)
    (hwoken : await (some ((deadlineUs - now / 1000) * 1000)) now arrivals = woken)
    (hready : woken.1 = true) (h : Reaches deadlineUs woken.2 (k + 1) arrivals)
    : Reaches deadlineUs now (k + 1) arrivals := by
  cases arrivals with
  | nil =>
    rw [← hwoken] at hready
    contradiction
  | cons next later =>
    rw [await] at hwoken
    split at hwoken
    . next hsoon =>
      rw [← hwoken, Reaches, if_pos (Nat.le_max_right _ _)] at h
      rw [Reaches]
      split
      . next hthere =>
        rw [Nat.max_eq_left hthere] at h
        exact h
      . next hlater =>
        rw [Nat.max_eq_right (by omega)] at h
        exact ⟨hlt, hsoon, h⟩
    . rw [← hwoken] at hready
      contradiction

-- What is read behind a wait, from the wait on.
theorem Reads.await {deadlineUs len : Nat} {line line₁ after : Line} {whole : Prop} {woken : Bool × Nat}
    (hlt : line.now / 1000 < deadlineUs)
    (hwoken : await (some ((deadlineUs - line.now / 1000) * 1000)) line.now line.incoming = woken)
    (hready : woken.1 = true) (hidles : Line.Idles line woken.2 line₁) (hlen : 0 < len)
    (h : Reads deadlineUs len line₁ whole after)
    : Reads deadlineUs len line whole after := by
  have hstart := le_await (some ((deadlineUs - line.now / 1000) * 1000)) line.now line.incoming
  have hdue : len ≤ line.incoming.length →
      due line₁.now (line₁.incoming.take len) = due line.now (line.incoming.take len) := by
    intro hle
    rw [hidles.now, hidles.incoming, ← hwoken]
    apply due_await hlen hle
    rw [hwoken, hready]
  rw [hwoken] at hstart
  constructor
  . exact h.prompt
  . exact (hidles.waited hstart).trans h.waited
  . intro _
    apply h.bound
    have hend := await_le ((deadlineUs - line.now / 1000) * 1000) line.now line.incoming
    rw [hwoken] at hend
    rw [hidles.now]
    omega
  . intro hwhole
    obtain ⟨hle, hnow, hincoming⟩ := h.there hwhole
    rw [hidles.incoming] at hle hincoming
    exact ⟨hle, by rw [hnow, hdue hle], hincoming⟩
  . intro hnot
    obtain ⟨hexpired, hlate⟩ := h.missing hnot
    refine ⟨hexpired, ?_⟩
    intro hle
    rw [← hdue hle]
    apply hlate
    rw [hidles.incoming]
    exact hle

-- A wait that is not for a byte in time.
theorem Reads.expired {deadlineUs len time : Nat} {line after : Line} (hlen : 0 < len)
    (hidles : Line.Idles line time after) (hnow : line.now ≤ time)
    (htime : deadlineUs ≤ time / 1000) (hbound : line.now / 1000 ≤ deadlineUs → time / 1000 ≤ deadlineUs)
    (hlate : ∀ next later, line.incoming = next :: later → deadlineUs ≤ max line.now next.time / 1000)
    : Reads deadlineUs len line False after := by
  constructor
  . exact hidles.prompt
  . exact hidles.waited hnow
  . rw [hidles.now]
    exact hbound
  . exact False.elim
  . intro _
    rw [hidles.now]
    refine ⟨htime, ?_⟩
    intro hle
    obtain ⟨len, rfl⟩ := Nat.exists_eq_succ_of_ne_zero (Nat.ne_of_gt hlen)
    cases hincoming : line.incoming with
    | nil =>
      rw [hincoming] at hle
      simp at hle
    | cons next later =>
      rw [List.take_succ_cons, due_cons]
      exact Nat.le_trans (hlate next later hincoming) (Nat.div_le_div_right (le_due _ _))

theorem Reads.of_delivers {deadlineUs len : Nat} {line after : Line} {chunk : List UInt8}
    (h : Line.Delivers len line chunk after)
    : Reads deadlineUs chunk.length line True after := by
  constructor
  . exact h.prompt
  . exact h.waited
  . rw [h.now]
    exact id
  . intro _
    refine ⟨h.len, ?_, h.rest⟩
    rw [h.now, due_of_arrived h.arrived]
  . intro hnot
    exact absurd trivial hnot

theorem readLoop_prompt {deadlineUs fuel len : Nat} {line : Line} (h : Line.Prompt line)
    (hfuel : line.effort < fuel)
    : Reads deadlineUs len line ((readLoop deadlineUs fuel line len).1 = 0)
        (readLoop deadlineUs fuel line len).2.2 ∧
      ((readLoop deadlineUs fuel line len).1 = 0 → Reaches deadlineUs line.now len line.incoming) := by
  induction fuel generalizing line len with
  | zero => omega
  | succ fuel ih =>
    obtain ⟨hexpired, hwaits⟩ := waitLoop_prompt deadlineUs h
      (Nat.lt_succ_self line.turns.length)
    have heffort := (waitLoop_took deadlineUs (line.turns.length + 1) line).effort
    rw [List.length_nil] at heffort
    unfold readLoop waitReadable
    split
    . next hzero =>
      subst hzero
      rw [eq_true (show (0 : Int) = 0 from rfl)]
      exact ⟨Reads.nothing h, fun _ => trivial⟩
    . next hlen =>
      obtain ⟨len, rfl⟩ := Nat.exists_eq_succ_of_ne_zero hlen
      generalize waitLoop deadlineUs (line.turns.length + 1) line = result at hexpired hwaits heffort
      obtain ⟨ready, line₁⟩ := result
      dsimp only at hexpired hwaits heffort ⊢
      by_cases hlt : line.now / 1000 < deadlineUs
      . generalize hwoken : await (some ((deadlineUs - line.now / 1000) * 1000)) line.now
          line.incoming = woken at hwaits
        obtain ⟨hrc, hidles⟩ := hwaits hlt woken rfl
        cases hready : woken.1 with
        | false =>
          rw [hready, if_neg (by decide)] at hrc
          subst hrc
          rw [if_pos (by decide), eq_false (show ¬(-2 : Int) = 0 by decide)]
          refine ⟨?_, False.elim⟩
          rw [← hwoken] at hready hidles
          obtain ⟨hend, hlate⟩ := await_asleep hready
          rw [hend] at hidles
          apply Reads.expired (Nat.succ_pos len) hidles
          . omega
          . omega
          . omega
          . intro next later heq
            have := hlate next later heq
            omega
        | true =>
          rw [hready, if_pos rfl] at hrc
          subst hrc
          rw [if_neg (by decide)]
          have harrived : 0 < line₁.arrived := by
            rw [Line.arrived_pos_iff]
            rw [← hwoken] at hready hidles
            obtain ⟨next, later, heq, hle⟩ := await_ready hready
            refine ⟨next, later, ?_, ?_⟩
            . rw [hidles.incoming, heq]
            . rw [hidles.now]
              exact hle
          have hread := hidles.prompt.read (Nat.succ_pos len) harrived
          have hreceives := Line.read_receives line₁ (len + 1)
          generalize line₁.read (len + 1) = result at hread hreceives
          obtain ⟨ret, line₂⟩ := result
          dsimp only at hread hreceives ⊢
          obtain ⟨hintr, hsame⟩ | ⟨chunk, hbytes, hdelivers⟩ := hread
          . subst hintr
            have hless := receives_effort hreceives
            have hboth := hidles.trans hsame
            rw [hidles.now] at hboth
            obtain ⟨hreads, hreaches⟩ := @ih (len + 1) line₂ hsame.prompt (by omega)
            refine ⟨hreads.await hlt hwoken hready hboth (Nat.succ_pos len), ?_⟩
            intro hok
            apply reaches_await hlt hwoken hready
            rw [← hboth.now, ← hboth.incoming]
            exact hreaches hok
          . subst hbytes
            have hless := hreceives.bytes.1.effort
            have hpos := hdelivers.pos
            obtain ⟨hreads, hreaches⟩ := @ih (len + 1 - chunk.length) line₂ hdelivers.prompt
              (by omega)
            have hwhole := (Reads.of_delivers hdelivers).trans hreads
            rw [Nat.add_sub_cancel' hdelivers.le] at hwhole
            refine ⟨hwhole.await hlt hwoken hready hidles (Nat.succ_pos len), ?_⟩
            intro hok
            apply reaches_await hlt hwoken hready
            rw [← hidles.now, ← hidles.incoming]
            rw [reaches_arrived hdelivers.le hdelivers.len hdelivers.arrived]
            rw [← hdelivers.now, ← hdelivers.rest]
            exact hreaches hok
      . obtain ⟨hrc, hidles⟩ := hexpired (by omega)
        subst hrc
        rw [if_pos (by decide), eq_false (show ¬(-2 : Int) = 0 by decide)]
        refine ⟨?_, False.elim⟩
        apply Reads.expired (Nat.succ_pos len) hidles
        . omega
        . omega
        . omega
        . intro next later _
          omega

theorem readExactTimeout_prompt {line : Line} (h : Line.Prompt line) (len deadlineUs : Nat)
    : Reads deadlineUs len line ((readExactTimeout line len deadlineUs).1 = 0)
        (readExactTimeout line len deadlineUs).2.2 ∧
      ((readExactTimeout line len deadlineUs).1 = 0 →
        Reaches deadlineUs line.now len line.incoming) := by
  apply readLoop_prompt h
  omega

-- What is received of a response is what `responseLen` makes of its bytes.
theorem recvRest_reads {line : Line} (h : Line.Prompt line) (unitId : UInt8) (deadlineUs : Nat)
    (buf : Mem UInt8) (totalLen frameLen : Nat)
    : ∃ whole, Reads deadlineUs (frameLen - totalLen) line whole
        (recvRest unitId deadlineUs buf totalLen frameLen line).line := by
  have hreads := (readExactTimeout_prompt h (frameLen - totalLen) deadlineUs).1
  refine ⟨(readExactTimeout line (frameLen - totalLen) deadlineUs).1 = 0, ?_⟩
  unfold recvRest
  generalize readExactTimeout line (frameLen - totalLen) deadlineUs = result at hreads
  obtain ⟨rc, got, line'⟩ := result
  dsimp only at hreads ⊢
  split
  . exact hreads
  . split
    . exact hreads
    . split
      . exact hreads
      . exact hreads

-- A read of the first bytes, behind which there may be more to be read.
theorem Reads.front {deadlineUs j len : Nat} {line mid after : Line} {rc : Int}
    (h : Reads deadlineUs j line (rc = 0) mid) (hle : j ≤ len) (hfail : rc ≠ 0 → after = mid)
    (hrest : rc = 0 → ∃ whole, Reads deadlineUs (len - j) mid whole after)
    : ∃ whole, Reads deadlineUs len line whole after := by
  by_cases hok : rc = 0
  . obtain ⟨whole, hreads⟩ := hrest hok
    refine ⟨whole, ?_⟩
    rw [eq_true hok] at h
    have hboth := h.trans hreads
    rwa [Nat.add_sub_cancel' hle] at hboth
  . refine ⟨False, ?_⟩
    have hshort := h.short hok (len - j)
    rwa [Nat.add_sub_cancel' hle, ← hfail hok] at hshort

theorem Reads.stop {deadlineUs : Nat} {line : Line} (h : Line.Prompt line)
    : ∃ whole, Reads deadlineUs 0 line whole line := by
  exact ⟨True, Reads.nothing h⟩

theorem recvBefore_reads {line : Line} (h : Line.Prompt line) (unitId fc : UInt8) (buf : Mem UInt8)
    (deadlineUs : Nat)
    : ∃ whole, Reads deadlineUs (responseLen fc line.bytes) line whole
        (recvBefore unitId fc buf deadlineUs line).line := by
  have htwo := two_le_responseLen fc line.bytes
  have hreads := (readExactTimeout_prompt h 2 deadlineUs).1
  have hexact := readExactTimeout_reads line 2 deadlineUs
  unfold recvBefore
  generalize readExactTimeout line 2 deadlineUs = result at hreads hexact
  obtain ⟨rc, got, line₁⟩ := result
  dsimp only at hreads ⊢
  apply hreads.front htwo
  . intro hfail
    rw [if_pos hfail]
  . intro hok
    rw [if_neg (not_not.mpr hok)]
    have hlen : got.length = 2 := hexact.ok hok
    obtain ⟨first, respFc, rfl⟩ := List.length_eq_two.mp hlen
    have hbytes : line.bytes = first :: respFc :: line₁.bytes := hexact.took.bytes
    have hfc : (buf.write 0 [first, respFc]) offsetFc = respFc := by
      simp [Mem.write]
    generalize buf.write 0 [first, respFc] = buf₁ at hfc
    have hprompt := hreads.prompt
    rw [hfc, hbytes]
    unfold responseLen
    dsimp only
    split
    . apply recvRest_reads hprompt
    . split
      . exact Reads.stop hprompt
      . split
        . have hreads₁ := (readExactTimeout_prompt hprompt 1 deadlineUs).1
          have hexact₁ := readExactTimeout_reads line₁ 1 deadlineUs
          generalize readExactTimeout line₁ 1 deadlineUs = result at hreads₁ hexact₁
          obtain ⟨rc₁, got₁, line₂⟩ := result
          dsimp only at hreads₁ ⊢
          apply hreads₁.front
          . split
            . split
              . decide
              . omega
            . decide
          . intro hfail₁
            rw [if_pos hfail₁]
          . intro hok₁
            have hlen₁ : got₁.length = 1 := hexact₁.ok hok₁
            obtain ⟨count, rfl⟩ := List.length_eq_one_iff.mp hlen₁
            have hbytes₁ : line₁.bytes = count :: line₂.bytes := hexact₁.took.bytes
            have hcount : (buf₁.write 2 [count]) readByteCountOff = count := by
              simp [Mem.write]
            rw [if_neg (not_not.mpr hok₁), hcount, hbytes₁]
            dsimp only
            split
            . exact Reads.stop hreads₁.prompt
            . rw [Nat.sub_sub]
              apply recvRest_reads hreads₁.prompt
        . apply recvRest_reads hprompt

-- The deadline of what is waited for from `now` on.
def deadlineFrom (ses : Session) (now : Nat) : Nat :=
  now / 1000 + 1000 * effectiveResponseTimeoutMs ses.ctx.cfg + frameWireTimeUs ses.bus rtuMaxAduLength

theorem responseDeadlineUs_prompt {line : Line} (h : Line.Prompt line) (ses : Session)
    : (responseDeadlineUs ses line).1 = deadlineFrom ses line.now ∧
      Line.Idles line line.now (responseDeadlineUs ses line).2 := by
  have hclock : Line.Idles line line.now (monotonicUs line).2 := h.clock
  refine ⟨?_, hclock⟩
  unfold responseDeadlineUs deadlineFrom
  dsimp only
  congr 2
  unfold monotonicUs
  exact congrArg (· / 1000) hclock.now

theorem effectiveResponseTimeoutMs_pos (cfg : ClientConfig)
    : 0 < effectiveResponseTimeoutMs cfg := by
  unfold effectiveResponseTimeoutMs
  split
  . next hne =>
    apply Nat.pos_of_ne_zero
    intro hzero
    exact hne (UInt32.toNat_inj.mp hzero)
  . decide

-- Where the client reads back its own request, and that comes late but in time, the response that it then
-- waits for is there by the deadline all the same.
def EchoOnTime (ses : Session) (fc : UInt8) (req : List UInt8) (now : Nat) (arrivals : List Arrival)
    : Prop :=
  let deadlineUs := deadlineFrom ses now
  let echoed := due now (arrivals.take req.length)
  let rest := arrivals.drop req.length
  ses.ctx.cfg.localEcho = true → ses.unitId ≠ rtuBroadcastAddress →
    Reaches deadlineUs now req.length arrivals →
    (arrivals.take req.length).map Arrival.byte = req → echoed / 1000 ≠ now / 1000 →
    responseLen fc (rest.map Arrival.byte) ≤ rest.length ∧
      due echoed (rest.take (responseLen fc (rest.map Arrival.byte))) / 1000 ≤ deadlineUs

section

variable {ses : Session} {pdu resp : Mem UInt8} {req : List UInt8} {line : Line} {events : List Event}

theorem busTransactionEnd_prompt (ses : Session) (h : Line.Prompt line)
    : Line.Idles line line.now (busTransactionEnd ses line).line := by
  exact h.clock

theorem awaitResponse_line
    : (awaitResponse ses pdu resp req line events).ses.line
        =
      (busTransactionEnd ses
        (if (recvEcho ses req line).1 = true ∧ ses.unitId ≠ rtuBroadcastAddress then
          (recvResponse ses ses.unitId (pdu 0) resp (recvEcho ses req line).2).line
        else (recvEcho ses req line).2)).line := by
  unfold awaitResponse
  generalize recvEcho ses req line = result
  obtain ⟨echoed, line'⟩ := result
  cases echoed with
  | false => rfl
  | true =>
    dsimp only
    by_cases hbroadcast : ses.unitId = rtuBroadcastAddress
    . rw [if_pos hbroadcast, if_neg (fun h => h.2 hbroadcast)]
    . have hunicast : true = true ∧ ses.unitId ≠ rtuBroadcastAddress := ⟨rfl, hbroadcast⟩
      rw [if_neg hbroadcast, if_pos hunicast]
      split
      . rfl
      . split
        . rfl
        . rfl

theorem recvResponse_reads (ses : Session) (resp : Mem UInt8) (h : Line.Prompt line) (fc : UInt8)
    : ∃ whole, Reads (deadlineFrom ses line.now) (responseLen fc line.bytes) line whole
        (recvResponse ses ses.unitId fc resp line).line := by
  obtain ⟨hdeadline, hidles⟩ := responseDeadlineUs_prompt h ses
  obtain ⟨whole, hreads⟩ := recvBefore_reads hidles.prompt ses.unitId fc resp
    (responseDeadlineUs ses line).1
  have hbytes : (responseDeadlineUs ses line).2.bytes = line.bytes := by
    unfold Line.bytes
    rw [hidles.incoming]
  rw [hdeadline, hbytes] at hreads
  refine ⟨whole, ?_⟩
  unfold recvResponse
  dsimp only
  rw [hdeadline]
  exact hreads.behind hidles

end

-- A call that moves as much as it is asked for, up to a limit.
def brisk (limit : Nat) : Turn :=
  ⟨0, limit, .done⟩

section

variable {line : Line} {n limit : Nat}

theorem turn_brisk (h : line.turns = List.replicate (n + 1) (brisk limit))
    : line.turn = (brisk limit, { line with turns := List.replicate n (brisk limit) }) := by
  unfold Line.turn
  rw [h, List.replicate_succ]
  rfl

theorem waitReadable_brisk {deadlineUs : Nat} {woken : Bool × Nat}
    (h : line.turns = List.replicate (n + 2) (brisk limit)) (hlt : line.now / 1000 < deadlineUs)
    (hwoken : await (some ((deadlineUs - line.now / 1000) * 1000)) line.now line.incoming = woken)
    (hready : woken.1 = true)
    : waitReadable line deadlineUs
        =
      (0, { line with turns := List.replicate n (brisk limit), now := woken.2 }) := by
  unfold waitReadable waitLoop monotonicUs Line.clock
  rw [turn_brisk h]
  dsimp only
  rw [if_neg (by omega)]
  unfold Line.select
  rw [@turn_brisk { line with turns := List.replicate (n + 1) (brisk limit) } n limit rfl]
  dsimp only [brisk]
  rw [← hwoken] at hready
  obtain ⟨next, later, heq, hle⟩ := await_ready hready
  rw [heq] at hwoken hready
  have hend := await_cons hready
  rw [hwoken] at hend
  rw [heq]
  dsimp only
  rw [await] at hready
  split at hready
  . next hsoon =>
    rw [if_pos hsoon, hend]
    rfl
  . contradiction

theorem read_brisk {len : Nat} (h : line.turns = List.replicate (n + 1) (brisk limit))
    (harrived : 0 < line.arrived) (hlen : 0 < len) (hmax : len ≤ limit)
    : line.read len = Line.deliver { line with turns := List.replicate n (brisk limit) }
        (min line.arrived len) := by
  unfold Line.read
  rw [turn_brisk h]
  generalize List.replicate n (brisk limit) = turns
  have hsame : Line.arrived { line with turns := turns } = line.arrived := rfl
  have hmin : min len (limit + 1) = len := Nat.min_eq_left (Nat.le_succ_of_le hmax)
  dsimp only [brisk]
  rw [hsame, if_neg (by omega), hmin]

-- The bytes that have arrived are all there are for now.
theorem reaches_rest {deadlineUs k : Nat} (hk : line.arrived < k)
    (h : Reaches deadlineUs line.now k line.incoming)
    : line.now / 1000 < deadlineUs := by
  rw [reaches_arrived (Nat.le_of_lt hk) (Line.arrived_le line)
    (Line.take_arrived line (Nat.le_refl _))] at h
  obtain ⟨m, hm⟩ := Nat.exists_eq_succ_of_ne_zero (show k - line.arrived ≠ 0 by omega)
  rw [hm] at h
  cases hrest : line.incoming.drop line.arrived with
  | nil =>
    rw [hrest] at h
    exact h.elim
  | cons next later =>
    have hlate := Line.drop_arrived hrest
    rw [hrest, Reaches, if_neg (by omega)] at h
    exact h.1

-- Bytes that can be reached are waited for no longer than that.
theorem await_of_reaches {deadlineUs now k : Nat} {arrivals : List Arrival} {woken : Bool × Nat}
    (hwoken : await (some ((deadlineUs - now / 1000) * 1000)) now arrivals = woken)
    (h : Reaches deadlineUs now (k + 1) arrivals)
    : woken.1 = true ∧ Reaches deadlineUs woken.2 (k + 1) arrivals := by
  cases arrivals with
  | nil => exact h.elim
  | cons next later =>
    rw [Reaches] at h
    rw [await] at hwoken
    split at h
    . next hthere =>
      rw [if_pos (by omega)] at hwoken
      rw [← hwoken, Reaches, if_pos (Nat.le_max_right _ _), Nat.max_eq_left hthere]
      exact ⟨rfl, h⟩
    . next hlater =>
      rw [if_pos h.2.1] at hwoken
      rw [← hwoken, Reaches, if_pos (Nat.le_max_right _ _), Nat.max_eq_right (by omega)]
      exact ⟨rfl, h.2.2⟩

theorem readLoop_brisk {deadlineUs fuel len : Nat} (hturns : line.turns = List.replicate n (brisk limit))
    (hn : 3 * len ≤ n) (hmax : len ≤ limit) (hfuel : line.effort < fuel)
    (hlt : line.now / 1000 < deadlineUs) (h : Reaches deadlineUs line.now len line.incoming)
    : (readLoop deadlineUs fuel line len).1 = 0 := by
  induction fuel generalizing line len n with
  | zero => omega
  | succ fuel ih =>
    cases len with
    | zero => rfl
    | succ len =>
      obtain ⟨n, rfl⟩ : ∃ m, n = m + 3 := ⟨n - 3, by omega⟩
      generalize hwoken : await (some ((deadlineUs - line.now / 1000) * 1000)) line.now line.incoming
        = woken
      obtain ⟨hready, hreaches⟩ := await_of_reaches hwoken h
      have hwait := @waitReadable_brisk _ (n + 1) _ _ _ hturns hlt hwoken hready
      have harrived : 0 < Line.arrived
          { line with turns := List.replicate (n + 1) (brisk limit), now := woken.2 } := by
        rw [Line.arrived_pos_iff]
        rw [← hwoken] at hready ⊢
        exact await_ready hready
      have heffort : Line.effort { line with turns := List.replicate (n + 1) (brisk limit), now := woken.2 }
          < fuel + 1 := by
        unfold Line.effort at hfuel ⊢
        rw [hturns] at hfuel
        simp only [List.length_replicate] at hfuel ⊢
        omega
      generalize hline₁ : ({ line with turns := List.replicate (n + 1) (brisk limit), now := woken.2 } : Line)
        = line₁ at hwait harrived heffort
      have hturns₁ : line₁.turns = List.replicate (n + 1) (brisk limit) := by
        rw [← hline₁]
      rw [show woken.2 = line₁.now by rw [← hline₁],
        show line.incoming = line₁.incoming by rw [← hline₁]] at hreaches
      have hread := read_brisk hturns₁ harrived (Nat.succ_pos len) hmax
      have hle := Line.arrived_le line₁
      generalize hk : min line₁.arrived (len + 1) = k at hread
      have hlen : ((line₁.incoming.take k).map Arrival.byte).length = k := by
        rw [List.length_map, List.length_take]
        omega
      have hsmaller : Line.effort
          { line₁ with turns := List.replicate n (brisk limit), incoming := line₁.incoming.drop k } < fuel := by
        unfold Line.effort at heffort ⊢
        rw [hturns₁] at heffort
        simp only [List.length_replicate, List.length_drop] at heffort ⊢
        omega
      unfold readLoop
      rw [if_neg (by omega), hwait]
      dsimp only
      rw [if_neg (by decide), hread]
      dsimp only [Line.deliver]
      rw [hlen]
      by_cases hmore : line₁.arrived < len + 1
      . have hlt₁ := reaches_rest hmore hreaches
        have hk' : k = line₁.arrived := by omega
        rw [reaches_arrived (Nat.le_of_lt hmore) hle (Line.take_arrived line₁ (Nat.le_refl _)),
          ← hk'] at hreaches
        exact ih rfl (by omega) (by omega) hsmaller hlt₁ hreaches
      . rw [show len + 1 - k = 0 by omega]
        obtain ⟨fuel, rfl⟩ := Nat.exists_eq_succ_of_ne_zero (show fuel ≠ 0 by omega)
        rfl

end

section

variable {ses : Session} {pdu resp : Mem UInt8} {req : List UInt8} {line : Line} {events : List Event}

theorem recvEcho_reads (req : List UInt8) (h : Line.Prompt line) (hlocal : ses.ctx.cfg.localEcho = true)
    : ∃ whole, Reads (deadlineFrom ses line.now) req.length line whole (recvEcho ses req line).2 ∧
      ((recvEcho ses req line).1 = true → whole ∧
        Reaches (deadlineFrom ses line.now) line.now req.length line.incoming ∧
        (line.incoming.take req.length).map Arrival.byte = req) := by
  obtain ⟨hdeadline, hidles⟩ := responseDeadlineUs_prompt h ses
  obtain ⟨hreads, hreaches⟩ := readExactTimeout_prompt hidles.prompt req.length
    (responseDeadlineUs ses line).1
  have hexact := readExactTimeout_reads (responseDeadlineUs ses line).2 req.length
    (responseDeadlineUs ses line).1
  unfold recvEcho
  rw [if_pos hlocal]
  dsimp only
  rw [hdeadline] at hreads hreaches hexact ⊢
  refine ⟨_, hreads.behind hidles, ?_⟩
  intro hecho
  obtain ⟨hok, hgot⟩ := of_decide_eq_true hecho
  refine ⟨hok, ?_, ?_⟩
  . rw [hidles.now, hidles.incoming] at hreaches
    exact hreaches hok
  . have hbytes := congrArg (List.take req.length) hexact.took.bytes
    rw [hgot, List.take_left] at hbytes
    rw [← hidles.incoming, List.map_take]
    exact hbytes

theorem deadlineFrom_gt (ses : Session) (now : Nat)
    : now / 1000 < deadlineFrom ses now := by
  have hpos := effectiveResponseTimeoutMs_pos ses.ctx.cfg
  unfold deadlineFrom
  omega

theorem awaitResponse_punctual (h : Line.Prompt line)
    (hecho : EchoOnTime ses (pdu 0) req line.now line.incoming)
    : Line.Punctual 1000 (deadlineFrom ses line.now) line
        (awaitResponse ses pdu resp req line events).rc
        (awaitResponse ses pdu resp req line events).ses.line := by
  have hstart := Nat.le_of_lt (deadlineFrom_gt ses line.now)
  -- it is enough to look at the line that the response, or its absence, leaves behind
  have hends : ∀ after, Line.Prompt after → Line.Waited line after →
      after.now / 1000 ≤ deadlineFrom ses line.now →
      ∀ rc, Line.Punctual 1000 (deadlineFrom ses line.now) line rc
        (busTransactionEnd ses after).line := by
    intro after hprompt hwaited hbound rc
    have hidles := busTransactionEnd_prompt ses hprompt
    rw [Line.punctual_iff (hwaited.trans (hidles.waited (Nat.le_refl _))), hidles.now]
    exact hbound
  rw [awaitResponse_line]
  cases hlocal : ses.ctx.cfg.localEcho with
  | false =>
    rw [recvEcho_none hlocal]
    split
    . obtain ⟨whole, hreads⟩ := recvResponse_reads ses resp h (pdu 0)
      exact hends _ hreads.prompt hreads.waited (hreads.bound hstart) _
    . exact hends line h ⟨0, rfl, Nat.le_refl _⟩ hstart _
  | true =>
    obtain ⟨whole, hreads, hechoed⟩ := recvEcho_reads req h hlocal
    have hbound := hreads.bound hstart
    split
    . next hunicast =>
      obtain ⟨hwhole, hreaches, hbytes⟩ := hechoed hunicast.1
      obtain ⟨hle, hnow, hincoming⟩ := hreads.there hwhole
      obtain ⟨whole', hreads'⟩ := recvResponse_reads ses resp hreads.prompt (pdu 0)
      apply hends _ hreads'.prompt (hreads.waited.trans hreads'.waited)
      by_cases hsame : (recvEcho ses req line).2.now / 1000 = line.now / 1000
      . have hdeadline : deadlineFrom ses (recvEcho ses req line).2.now = deadlineFrom ses line.now := by
          unfold deadlineFrom
          rw [hsame]
        rw [hdeadline] at hreads'
        exact hreads'.bound hbound
      . have hlate := hecho hlocal hunicast.2 hreaches hbytes (by rw [← hnow]; exact hsame)
        rw [← hincoming, ← hnow] at hlate
        have hlater : deadlineFrom ses line.now < deadlineFrom ses (recvEcho ses req line).2.now := by
          have hle := Nat.div_le_div_right (c := 1000) hreads.waited.now_le
          unfold deadlineFrom
          omega
        by_cases hwhole' : whole'
        . rw [(hreads'.there hwhole').2.1]
          exact hlate.2
        . have hmissing := (hreads'.missing hwhole').2 hlate.1
          exact absurd (Nat.le_trans hmissing hlate.2) (Nat.not_le.mpr hlater)
    . exact hends _ hreads.prompt hreads.waited hbound _

-- An echo that can be reached is read, if the calls move enough.
theorem recvEcho_brisk (hlocal : ses.ctx.cfg.localEcho = true)
    (hturns : line.turns = List.replicate (3 * req.length + 1) (brisk req.length))
    (hreaches : Reaches (deadlineFrom ses line.now) line.now req.length line.incoming)
    (hbytes : (line.incoming.take req.length).map Arrival.byte = req)
    : (recvEcho ses req line).1 = true := by
  have hdeadline : responseDeadlineUs ses line = (deadlineFrom ses line.now,
      { line with turns := List.replicate (3 * req.length) (brisk req.length) }) := by
    unfold responseDeadlineUs monotonicUs Line.clock
    rw [turn_brisk hturns]
    rfl
  have hok : (readExactTimeout { line with turns := List.replicate (3 * req.length) (brisk req.length) }
      req.length (deadlineFrom ses line.now)).1 = 0 := by
    apply @readLoop_brisk _ (3 * req.length) req.length
    . rfl
    . apply Nat.le_refl
    . apply Nat.le_refl
    . apply Nat.lt_succ_self
    . exact deadlineFrom_gt ses line.now
    . exact hreaches
  have hexact := readExactTimeout_reads
    { line with turns := List.replicate (3 * req.length) (brisk req.length) } req.length
    (deadlineFrom ses line.now)
  unfold recvEcho
  rw [if_pos hlocal, hdeadline]
  apply decide_eq_true
  refine ⟨hok, ?_⟩
  have hgot := congrArg (List.take req.length) hexact.took.bytes
  rw [List.take_left' (hexact.ok hok)] at hgot
  rw [List.map_take] at hbytes
  exact hgot.symm.trans hbytes

theorem awaitResponse_late (hecho : ¬EchoOnTime ses (pdu 0) req line.now line.incoming)
    : ∃ turns, Line.Prompt { line with turns := turns } ∧
      ¬Line.Punctual 1000 (deadlineFrom ses line.now) { line with turns := turns }
        (awaitResponse ses pdu resp req { line with turns := turns } events).rc
        (awaitResponse ses pdu resp req { line with turns := turns } events).ses.line := by
  unfold EchoOnTime at hecho
  simp only [not_forall] at hecho
  obtain ⟨hlocal, hunicast, hreaches, hbytes, hlater, hlate⟩ := hecho
  generalize hturns : List.replicate (3 * req.length + 1) (brisk req.length) = turns
  generalize hline : ({ line with turns := turns } : Line) = line'
  have hprompt : Line.Prompt line' := by
    rw [← hline, ← hturns]
    constructor
    . intro turn hmem
      rw [List.eq_of_mem_replicate hmem]
      rfl
    . intro turn hmem
      rw [List.eq_of_mem_replicate hmem]
      exact .inl rfl
  refine ⟨turns, hline ▸ hprompt, ?_⟩
  intro hpunctual
  have hbound := hpunctual.waited
  have hechoed : (recvEcho ses req line').1 = true := by
    rw [← hline, ← hturns]
    exact recvEcho_brisk hlocal rfl hreaches hbytes
  rw [hline, awaitResponse_line, if_pos ⟨hechoed, hunicast⟩] at hbound
  obtain ⟨whole, hreads, hfacts⟩ := recvEcho_reads req hprompt hlocal
  obtain ⟨-, hnow, hincoming⟩ := hreads.there (hfacts hechoed).1
  obtain ⟨whole', hreads'⟩ := recvResponse_reads ses resp hreads.prompt (pdu 0)
  rw [(busTransactionEnd_prompt ses hreads'.prompt).now] at hbound
  have hsameNow : line'.now = line.now := by
    rw [← hline]
  have hsameIncoming : line'.incoming = line.incoming := by
    rw [← hline]
  rw [hsameNow, hsameIncoming] at hnow
  rw [hsameIncoming] at hincoming
  have hdeadline : deadlineFrom ses line.now < deadlineFrom ses (recvEcho ses req line').2.now := by
    have hle := Nat.div_le_div_right (c := 1000) (le_due line.now (line.incoming.take req.length))
    rw [hnow]
    unfold deadlineFrom
    omega
  by_cases hwhole : whole'
  . obtain ⟨hle, hend, -⟩ := hreads'.there hwhole
    apply hlate
    rw [← hnow, ← hincoming]
    refine ⟨hle, ?_⟩
    rw [hend] at hbound
    exact hbound
  . have hmissing := (hreads'.missing hwhole).1
    exact absurd (Nat.le_trans hmissing hbound) (Nat.not_le.mpr hdeadline)

-- From the sent request on, whatever the system calls that are still to come move.
theorem awaitResponse_punctual_iff
    : (∀ turns, Line.Prompt { line with turns := turns } →
        Line.Punctual 1000 (deadlineFrom ses line.now) { line with turns := turns }
          (awaitResponse ses pdu resp req { line with turns := turns } events).rc
          (awaitResponse ses pdu resp req { line with turns := turns } events).ses.line) ↔
      EchoOnTime ses (pdu 0) req line.now line.incoming := by
  constructor
  . intro h
    by_contra hlate
    obtain ⟨turns, hprompt, hnot⟩ := awaitResponse_late hlate
    exact hnot (h turns hprompt)
  . intro hecho turns hprompt
    exact awaitResponse_punctual hprompt hecho

end

end Rtu.Client
