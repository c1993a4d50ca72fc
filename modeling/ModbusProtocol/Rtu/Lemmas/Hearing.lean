import ModbusProtocol.Rtu.Lemmas.Resync
import ModbusProtocol.Rtu.Lemmas.Safety
import ModbusProtocol.Rtu.System

/-!
This module contains what a server makes of what it hears on a serial line, where it comes to deal with all of
it: a request is carried out and answered, silence and the replies of others leave it as it is.
-/

open Modbus Posix

namespace Rtu

variable {σ : Type}

-- The server as it goes about its next calls: it gives up first what it has held for too long.
def Server.settled (cfg : ServerConfig σ) (pauses : List Nat) (srv : Server σ) : Server σ :=
  match pauses with
  | [] => srv
  | pause :: _ =>
    if assemblyTimedOut cfg srv.ctx (currentTimeUs (srv.pass pause).line).1 then
      { srv with ctx := resetRxState srv.ctx }
    else
      srv

-- The server gets round to all that is there, and nothing fails or is given up half-way.
structure Attentive (cfg : ServerConfig σ) (stack : Stack σ) (pauses : List Nat) (srv : Server σ)
    : Prop where
  empty : (srv.settled cfg pauses).ctx.rxLen = 0
  steady : NoTimeout cfg stack pauses (srv.settled cfg pauses)
  read : (runServer cfg stack pauses srv).server.line.incoming = []
  done : (extractRequestFrame (runServer cfg stack pauses srv).server.ctx
    (stack.adu (runServer cfg stack pauses srv).server.state) rtuMaxAduLength).1.isNone = true
  ok : (runServer cfg stack pauses srv).ok = true

instance (cfg : ServerConfig σ) (stack : Stack σ) (pauses : List Nat) (srv : Server σ)
    : Decidable (Attentive cfg stack pauses srv) :=
  decidable_of_iff
    ((srv.settled cfg pauses).ctx.rxLen = 0 ∧ NoTimeout cfg stack pauses (srv.settled cfg pauses) ∧
      (runServer cfg stack pauses srv).server.line.incoming = [] ∧
      (extractRequestFrame (runServer cfg stack pauses srv).server.ctx
        (stack.adu (runServer cfg stack pauses srv).server.state) rtuMaxAduLength).1.isNone = true ∧
      (runServer cfg stack pauses srv).ok = true)
    ⟨fun ⟨empty, steady, read, done, ok⟩ => ⟨empty, steady, read, done, ok⟩,
      fun h => ⟨h.empty, h.steady, h.read, h.done, h.ok⟩⟩

theorem runServer_settled_from (cfg : ServerConfig σ) (stack : Stack σ) (pauses : List Nat) (srv : Server σ)
    : runServer cfg stack pauses (srv.settled cfg pauses) = runServer cfg stack pauses srv := by
  cases pauses with
  | nil => rfl
  | cons pause pauses =>
    unfold Server.settled
    dsimp only
    split
    . next htimeout =>
      have hstep := serverOnProcess_timedOut cfg stack (srv.pass pause) htimeout
      unfold runServer
      rw [hstep]
      rfl
    . rfl

theorem settled_state (cfg : ServerConfig σ) (pauses : List Nat) (srv : Server σ)
    : (srv.settled cfg pauses).state = srv.state ∧ (srv.settled cfg pauses).line = srv.line := by
  unfold Server.settled
  split
  . exact ⟨rfl, rfl⟩
  . split
    . exact ⟨rfl, rfl⟩
    . exact ⟨rfl, rfl⟩

-- What a run that has heard `heard` has done: `events` tell what.
structure Reacts (srv : Server σ) (outcome : σ × List Event) (run : Run σ) : Prop where
  served : (run.server.state, run.events) = outcome
  held : run.server.ctx.held = []
  reply : srv.line.written run.server.line = (adusOf run.events).flatten

theorem Replied.written {before after : Line} {events : List Event} {ok : Prop}
    (h : Replied before events ok after) (hok : ok)
    : before.written after = (adusOf events).flatten := by
  obtain ⟨sents, -, houtgoing, hall⟩ := h
  unfold Line.written
  rw [houtgoing, List.drop_left, hall hok]

theorem Replied.unwritten {before after : Line} {events : List Event} {ok : Prop}
    (h : Replied before events ok after) (hevents : adusOf events = [])
    : before.written after = [] := by
  obtain ⟨sents, hparts, houtgoing, -⟩ := h
  rw [hevents, List.forall₂_nil_right_iff] at hparts
  unfold Line.written
  rw [houtgoing, hparts, List.flatten_nil, List.append_nil, List.drop_length]

section

variable {cfg : ServerConfig σ} {stack : Stack σ} {pauses : List Nat} {srv : Server σ} {times : Nat → Nat}
variable {frame : List UInt8}

theorem Attentive.request (h : Attentive cfg stack pauses (srv.feed times frame))
    (hread : srv.line.incoming = []) (hroom : srv.ctx.rxLen ≤ rtuMaxAduLength) (hvalid : ValidRequest frame)
    : Reacts srv (serveFrame cfg stack.locals frame srv.state)
        (runServer cfg stack pauses (srv.feed times frame)) := by
  have hreplied := (runServer_replied cfg stack pauses (srv.feed times frame) hroom).written h.ok
  have hbound := runServer_room cfg stack pauses (srv.feed times frame) hroom
  obtain ⟨hstate, hline⟩ := settled_state cfg pauses (srv.feed times frame)
  have hempty := h.empty
  have hbytes := h.read
  have hdone := Option.isNone_iff_eq_none.mp h.done
  have hrun := runServer_request cfg stack pauses _ frame (by rw [hempty]; apply Nat.zero_le) h.steady hvalid
    (by
      rw [hline, ServerCtx.held, hempty]
      change [] ++ (srv.line.feed times frame).bytes = frame
      rw [Line.feed_bytes, Line.bytes, hread]
      rfl)
  rw [runServer_settled_from, hstate] at hrun
  dsimp only at hrun hreplied
  generalize runServer cfg stack pauses (srv.feed times frame) = run at *
  obtain hkept | ⟨hserved, hheld⟩ := hrun
  . -- the request would still be there to be extracted
    exfalso
    rw [Line.bytes, hbytes, List.map_nil, List.append_nil] at hkept
    have hlimit : run.server.ctx.rxLen < sizeLimit := Nat.lt_of_le_of_lt hbound (by decide)
    have hextract := (extractRequestFrame_eq run.server.ctx (stack.adu run.server.state) hlimit).2
    rw [hdone, hkept, Framing.extract_take hvalid.verdict] at hextract
    injection hextract with hnone
    contradiction
  . exact ⟨hserved, hheld, hreplied⟩

theorem Attentive.silence (h : Attentive cfg stack pauses (srv.feed times []))
    (hread : srv.line.incoming = []) (hroom : srv.ctx.rxLen ≤ rtuMaxAduLength)
    : Reacts srv (srv.state, []) (runServer cfg stack pauses (srv.feed times [])) := by
  have hreplied := (runServer_replied cfg stack pauses (srv.feed times []) hroom).written h.ok
  obtain ⟨hstate, hline⟩ := settled_state cfg pauses (srv.feed times [])
  have hempty := h.empty
  have hidle := runServer_idle cfg stack pauses _ (by rw [hempty]; apply Nat.zero_le) h.steady
    (by rw [ServerCtx.held, hempty]; rfl)
    (by
      rw [hline]
      change (srv.line.feed times []).bytes = []
      rw [Line.feed_bytes, Line.bytes, hread]
      rfl)
  rw [runServer_settled_from, hstate] at hidle
  dsimp only at hidle
  obtain ⟨hsame, hevents, hheld⟩ := hidle
  constructor
  . rw [hsame, hevents]
    rfl
  . exact hheld
  . exact hreplied

theorem harmless_iff_slices {l : List UInt8}
    : Harmless cfg l
        ↔ ∀ i < l.length + 1, ∀ j < l.length + 1, ValidRequest ((l.drop i).take j) →
          ¬cfg.accepts (((l.drop i).take j).getD 0 0) (((l.drop i).take j).getD 1 0) := by
  constructor
  . intro h i _ j _
    apply h (l.take i) _ ((l.drop i).drop j)
    rw [List.append_assoc, List.take_append_drop, List.take_append_drop]
  . intro h front frame back heq hvalid
    have hslice : (l.drop front.length).take frame.length = frame := by
      rw [heq, List.append_assoc, List.drop_left, List.take_left]
    have hlen := congrArg List.length heq
    rw [List.length_append, List.length_append] at hlen
    have hrefused := h front.length (by omega) frame.length (by omega)
    rw [hslice] at hrefused
    exact hrefused hvalid

instance (frame : List UInt8) : Decidable (ValidRequest frame) :=
  inferInstanceAs (Decidable (_ ∧ _))

instance (cfg : ServerConfig σ) (l : List UInt8) : Decidable (Harmless cfg l) :=
  decidable_of_iff' _ harmless_iff_slices

-- What is only overheard does nothing.
theorem overhear_silent (cfg : ServerConfig σ) (stack : Stack σ) (pauses : List Nat) {srv : Server σ}
    (times : Nat → Nat) {heard : List UInt8} (hread : srv.line.incoming = []) (hheld : srv.ctx.held = [])
    (hharmless : Harmless cfg heard)
    : let run := runServer cfg stack pauses (srv.feed times heard)
      run.server.state = srv.state ∧ callsOf run.events = [] ∧ srv.line.written run.server.line = [] := by
  have hroom : srv.ctx.rxLen ≤ rtuMaxAduLength := by
    rw [← length_held, hheld]
    apply Nat.zero_le
  have hstream : (srv.feed times heard).ctx.held ++ (srv.feed times heard).line.bytes = heard := by
    change srv.ctx.held ++ (srv.line.feed times heard).bytes = heard
    rw [hheld, Line.feed_bytes, Line.bytes, hread]
    rfl
  obtain ⟨hstate, hevents⟩ := runServer_overhears cfg stack pauses (srv.feed times heard) hroom
    (by rw [hstream]; exact hharmless)
  have hreplied := runServer_replied cfg stack pauses (srv.feed times heard) hroom
  dsimp only at hreplied ⊢
  generalize runServer cfg stack pauses (srv.feed times heard) = run at *
  refine ⟨hstate, ?_, ?_⟩
  . unfold callsOf
    rw [List.filterMap_eq_nil_iff]
    intro event hevent
    obtain ⟨frame, rfl⟩ := hevents event hevent
    rfl
  . apply hreplied.unwritten
    unfold adusOf
    rw [List.filterMap_eq_nil_iff]
    intro event hevent
    obtain ⟨frame, rfl⟩ := hevents event hevent
    rfl

end

end Rtu
