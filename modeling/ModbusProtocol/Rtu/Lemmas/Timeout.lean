import ModbusProtocol.Rtu.Lemmas.Request

/-!
This module contains what the assembly timeout of the server does to a complete request that is already in
the receive buffer.
-/

open Modbus Posix

namespace Rtu

variable {σ : Type}

-- Whether the next call of `server_on_process` reads without a failure.
def readSucceeds (cfg : ServerConfig σ) (srv : Server σ) : Bool :=
  let (nowUs, line) := currentTimeUs srv.line
  let ctx := if assemblyTimedOut cfg srv.ctx nowUs then resetRxState srv.ctx else srv.ctx
  (readAvailableBytes ctx line nowUs).1

-- The next call whose read succeeds, each call after a pause.
def nextRead (cfg : ServerConfig σ) (stack : Stack σ) : List Nat → Server σ → Option (Processed σ)
  | [], _ => none
  | pause :: pauses, srv =>
    let p := serverOnProcess cfg stack (srv.pass pause)
    if readSucceeds cfg (srv.pass pause) then
      some p
    else
      nextRead cfg stack pauses p.server

-- The bytes that the server holds are not older than its timeout.
def Unexpired (cfg : ServerConfig σ) (ctx : ServerCtx) (nowUs : Nat) : Prop :=
  ctx.lastRxUs = 0 ∨ nowUs < ctx.lastRxUs ∨ nowUs - ctx.lastRxUs ≤ effectiveTimeoutMs cfg * 1000

-- Every call up to that one comes in time.
def UnexpiredUntilRead (cfg : ServerConfig σ) (stack : Stack σ) : List Nat → Server σ → Prop
  | [], _ => True
  | pause :: pauses, srv =>
    Unexpired cfg srv.ctx (currentTimeUs (srv.pass pause).line).1 ∧
      (readSucceeds cfg (srv.pass pause) = false →
        UnexpiredUntilRead cfg stack pauses (serverOnProcess cfg stack (srv.pass pause)).server)

-- The call has extracted `frame` and nothing else, and has served it.
structure Dispatches (cfg : ServerConfig σ) (locals : σ → Pdu.Locals) (frame : List UInt8) (s : σ)
    (p : Processed σ) : Prop where
  extracted : framesOf p.events = [frame]
  served : serveFrame cfg locals frame s = (p.server.state, p.events)

theorem assemblyTimedOut_iff {cfg : ServerConfig σ} {ctx : ServerCtx} (hpos : 0 < ctx.rxLen) (nowUs : Nat)
    : assemblyTimedOut cfg ctx nowUs = false ↔ Unexpired cfg ctx nowUs := by
  unfold assemblyTimedOut Unexpired
  rw [decide_eq_false_iff_not]
  omega

theorem processFrame_events (cfg : ServerConfig σ) (stack : Stack σ) (srv : Server σ) (adu : Mem UInt8)
    (totalLen requestEndUs : Nat)
    : (processFrame cfg stack srv adu totalLen requestEndUs).events ≠ [] := by
  unfold processFrame
  dsimp only
  split
  . simp
  . split
    . simp
    . split
      . simp
      . split
        . simp
        . split
          . simp
          . simp

theorem serverOnProcess_read {cfg : ServerConfig σ} (stack : Stack σ) {srv : Server σ}
    (hread : readSucceeds cfg srv = true)
    : (serverOnProcess cfg stack srv).rc = 0 ∨ (serverOnProcess cfg stack srv).events ≠ [] := by
  unfold readSucceeds at hread
  unfold serverOnProcess
  dsimp only at hread ⊢
  split
  . next ctx line heq =>
    rw [heq] at hread
    contradiction
  . split
    . exact .inl rfl
    . right
      apply processFrame_events

theorem serverOnProcess_unread {cfg : ServerConfig σ} (stack : Stack σ) {srv : Server σ}
    (hread : readSucceeds cfg srv = false)
    : (serverOnProcess cfg stack srv).events = [] := by
  unfold readSucceeds at hread
  unfold serverOnProcess
  dsimp only at hread ⊢
  split
  . rfl
  . next ctx line heq =>
    rw [heq] at hread
    contradiction

-- A call that comes in time serves the request in front, or has failed to read and leaves it there.
theorem Called.dispatches {cfg : ServerConfig σ} {locals : σ → Pdu.Locals} {srv : Server σ}
    {chunk frame rest : List UInt8} {p : Processed σ} (h : Called cfg locals srv chunk p)
    (hheld : srv.ctx.held = frame ++ rest) (hvalid : ValidRequest frame)
    : Dispatches cfg locals frame srv.state p ∨
        p.rc ≠ 0 ∧ p.events = [] ∧ p.server.state = srv.state ∧
          p.server.ctx.held = frame ++ (rest ++ chunk) := by
  have hserved := h.served
  cases h.extracted with
  | inl hfailed =>
    obtain ⟨hrc, hevents, hleft⟩ := hfailed
    right
    rw [hevents] at hserved
    rw [hheld, List.append_assoc] at hleft
    exact ⟨hrc, hevents, (congrArg Prod.fst hserved).symm, hleft⟩
  | inr hextracted =>
    obtain ⟨found, hextract, hframes⟩ := hextracted
    left
    have htake := Framing.verdict_append_take hvalid.verdict (rest ++ chunk)
    rw [hheld, List.append_assoc, Framing.extract_take htake, List.take_left] at hextract
    have hfound : some frame = found := congrArg Prod.fst hextract
    rw [← hfound] at hframes
    rw [hframes, Option.toList_some, transduce_singleton] at hserved
    exact ⟨hframes, hserved⟩

theorem pos_of_held {ctx : ServerCtx} {frame rest : List UInt8} (hheld : ctx.held = frame ++ rest)
    (hvalid : ValidRequest frame)
    : 0 < ctx.rxLen := by
  have hlen := requestLen_complete hvalid.1
  have hall : ctx.held.length = ctx.rxLen := Mem.length_slice _ _ _
  rw [hheld, List.length_append] at hall
  omega

theorem serverOnProcess_dispatches {cfg : ServerConfig σ} (stack : Stack σ) {srv : Server σ}
    {frame rest : List UInt8} (hroom : srv.ctx.rxLen ≤ rtuMaxAduLength)
    (hheld : srv.ctx.held = frame ++ rest) (hvalid : ValidRequest frame)
    (htime : Unexpired cfg srv.ctx (currentTimeUs srv.line).1)
    : if readSucceeds cfg srv then
        Dispatches cfg stack.locals frame srv.state (serverOnProcess cfg stack srv)
      else
        (serverOnProcess cfg stack srv).server.state = srv.state ∧
          ∃ later, (serverOnProcess cfg stack srv).server.ctx.held = frame ++ later := by
  have hquiet := (assemblyTimedOut_iff (pos_of_held hheld hvalid) _).mpr htime
  obtain ⟨chunk, -, hcalled⟩ := serverOnProcess_called cfg stack srv hroom hquiet
  cases hcalled.dispatches hheld hvalid with
  | inl hdispatches =>
    split
    . exact hdispatches
    . next hread =>
      have hevents := serverOnProcess_unread stack (Bool.eq_false_iff.mpr hread)
      have hframes := hdispatches.extracted
      rw [hevents] at hframes
      contradiction
  | inr hfailed =>
    obtain ⟨hrc, hevents, hstate, hleft⟩ := hfailed
    split
    . next hread =>
      cases serverOnProcess_read stack hread with
      | inl hzero => contradiction
      | inr hsome => contradiction
    . exact ⟨hstate, rest ++ chunk, hleft⟩

theorem nextRead_dispatches {cfg : ServerConfig σ} {stack : Stack σ} {calls : List Nat} {srv : Server σ}
    {frame rest : List UInt8} {p : Processed σ} (hroom : srv.ctx.rxLen ≤ rtuMaxAduLength)
    (hheld : srv.ctx.held = frame ++ rest) (hvalid : ValidRequest frame)
    (htime : UnexpiredUntilRead cfg stack calls srv) (hnext : nextRead cfg stack calls srv = some p)
    : Dispatches cfg stack.locals frame srv.state p := by
  induction calls generalizing srv rest with
  | nil => contradiction
  | cons pause calls ih =>
    unfold nextRead at hnext
    obtain ⟨hnow, hlater⟩ := htime
    have hcall := @serverOnProcess_dispatches _ cfg stack (srv.pass pause) frame rest hroom hheld hvalid hnow
    dsimp only at hnext
    split at hnext
    . next hread =>
      rw [if_pos hread] at hcall
      rw [← Option.some.inj hnext]
      exact hcall
    . next hread =>
      rw [if_neg hread] at hcall
      obtain ⟨hstate, later, hleft⟩ := hcall
      have hrest := ih (serverOnProcess_room cfg stack (srv.pass pause) hroom) hleft
        (hlater (Bool.eq_false_iff.mpr hread)) hnext
      rw [hstate] at hrest
      exact hrest

def silentLine (nowUs : Nat) : Line :=
  ⟨nowUs, [], [], [], none⟩

-- On a silent line a call that comes too late finds nothing any more.
theorem serverOnProcess_expired (cfg : ServerConfig σ) (stack : Stack σ) (srv : Server σ) (nowUs : Nat)
    (htimeout : assemblyTimedOut cfg srv.ctx nowUs = true)
    : nextRead cfg stack [0] { srv with line := silentLine nowUs }
        = some ⟨0, ⟨resetRxState srv.ctx, srv.state, silentLine nowUs⟩, []⟩ := by
  have hclock : currentTimeUs (silentLine nowUs) = (nowUs, silentLine nowUs) := rfl
  have hempty : readAvailableBytes (resetRxState srv.ctx) (silentLine nowUs) nowUs
      = (true, resetRxState srv.ctx, silentLine nowUs) := rfl
  unfold nextRead readSucceeds serverOnProcess Server.pass
  simp only [Line.pass, Nat.add_zero, hclock, htimeout, hempty, if_true]
  rfl

-- Which calls the server may be given late: in every state that it can reach, the request at the head of
-- its receive buffer is served by the next call that can read if every call until then comes within the
-- timeout of the last byte, and for a clock reading beyond that it is lost on some line.
theorem complete_request_kept_iff (cfg : ServerConfig σ) (stack : Stack σ) (pauses : List Nat)
    (start : Server σ) (hempty : start.ctx.rxLen = 0) (frame rest : List UInt8)
    (hheld : (runServer cfg stack pauses start).server.ctx.held = frame ++ rest)
    (hvalid : ValidRequest frame)
    : let srv := (runServer cfg stack pauses start).server
      (∀ line calls p, UnexpiredUntilRead cfg stack calls { srv with line := line } →
        nextRead cfg stack calls { srv with line := line } = some p →
        Dispatches cfg stack.locals frame srv.state p) ∧
      ∀ nowUs,
        (∀ line p, (currentTimeUs line).1 = nowUs →
          nextRead cfg stack [0] { srv with line := line } = some p →
          Dispatches cfg stack.locals frame srv.state p) ↔
        Unexpired cfg srv.ctx nowUs := by
  have hroom := runServer_room cfg stack pauses start (by simp [hempty])
  generalize (runServer cfg stack pauses start).server = srv at hheld hroom ⊢
  dsimp only
  have hintime : ∀ line calls p, UnexpiredUntilRead cfg stack calls { srv with line := line } →
      nextRead cfg stack calls { srv with line := line } = some p →
      Dispatches cfg stack.locals frame srv.state p := by
    intro line calls p htime hnext
    exact @nextRead_dispatches _ cfg stack calls { srv with line := line } frame rest p hroom hheld hvalid
      htime hnext
  apply And.intro hintime
  intro nowUs
  constructor
  . intro hserved
    rw [← assemblyTimedOut_iff (pos_of_held hheld hvalid), ← Bool.not_eq_true]
    intro htimeout
    have hlost := serverOnProcess_expired cfg stack srv nowUs htimeout
    have hdispatches := hserved (silentLine nowUs) _ rfl hlost
    have hframes := hdispatches.extracted
    contradiction
  . intro htime line p hclock hnext
    apply hintime line [0] p _ hnext
    constructor
    . subst hclock
      exact htime
    . intro _
      trivial

def pipelinedRequest : List UInt8 :=
  [1, 3, 0, 0, 0, 1, 0x84, 0x0A]

-- Two requests have arrived together, and the callback of the first takes `callbackUs`.
def pipelinedServer (callbackUs : Nat) : Server Unit :=
  ⟨⟨fun _ => 0, 0, 0, 1750⟩, (), {
    now := 1
    incoming := (pipelinedRequest ++ pipelinedRequest).map fun byte => ⟨0, byte⟩
    outgoing := []
    turns := [⟨0, 0, .done⟩, ⟨0, 255, .done⟩, ⟨0, 0, .done⟩, ⟨callbackUs, 0, .done⟩]
    recvTimeout := none }⟩

theorem validRequest_pipelined
    : ValidRequest pipelinedRequest := by
  exact ⟨by decide, by decide +kernel⟩

-- With a slow callback the second request is never served.
theorem pipelined_request_lost
    : (runServer (sampleConfig 1) sampleStack [0] (pipelinedServer 2000000)).server.ctx.held
        = pipelinedRequest ∧
      ValidRequest pipelinedRequest ∧
      (nextRead (sampleConfig 1) sampleStack [0]
          (runServer (sampleConfig 1) sampleStack [0] (pipelinedServer 2000000)).server).map
          (fun p => (framesOf p.events, p.server.ctx.held, p.server.line.bytes))
        = some ([], [], []) := by
  apply And.intro (by decide +kernel)
  apply And.intro validRequest_pipelined
  decide +kernel

theorem pipelined_request_kept
    : let srv := (runServer (sampleConfig 1) sampleStack [0] (pipelinedServer 2000)).server
      ∀ line p, (currentTimeUs line).1 = 4000 →
        nextRead (sampleConfig 1) sampleStack [0] { srv with line := line } = some p →
        Dispatches (sampleConfig 1) sampleStack.locals pipelinedRequest srv.state p := by
  have hheld : (runServer (sampleConfig 1) sampleStack [0] (pipelinedServer 2000)).server.ctx.held
      = pipelinedRequest ++ [] := by
    decide +kernel
  have htime : Unexpired (sampleConfig 1)
      (runServer (sampleConfig 1) sampleStack [0] (pipelinedServer 2000)).server.ctx 4000 := by
    unfold Unexpired
    decide +kernel
  have hkept := complete_request_kept_iff (sampleConfig 1) sampleStack [0] (pipelinedServer 2000) rfl
    pipelinedRequest [] hheld validRequest_pipelined
  exact (hkept.2 4000).mpr htime

end Rtu
