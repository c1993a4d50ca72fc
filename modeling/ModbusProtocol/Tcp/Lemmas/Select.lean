import ModbusProtocol.Tcp.Impl.Select
import ModbusProtocol.Tcp.Lemmas.Slots

/-!
This module contains when `mb_tcp_connect` and the server thread put a descriptor that is out of range into a
set, and that keeping the record of it changes nothing else.
-/

open Posix

namespace Tcp.WithSets

theorem connect_erase (env : ConnectEnv) (sock : Int) (bindIface remoteHost : String) (port : UInt16)
    : (connect env sock bindIface remoteHost port).result
        =
      Tcp.connect env.toConnectEnv sock bindIface remoteHost port := by
  have hprogress := env.inProgress_of_connected
  unfold connect Tcp.connect
  dsimp only
  split
  . rfl
  split
  . rfl
  split
  . rfl
  cases hconnect : env.connect with
  | true => rfl
  | false =>
    cases hinProgress : env.inProgress with
    | true =>
      cases hconnected : env.connected with
      | true => rfl
      | false => rfl
    | false =>
      have hconnected : env.connected = false := by
        cases hconnected : env.connected with
        | true => exact (hprogress hconnected).symm.trans hinProgress
        | false => rfl
      rw [hconnected]
      rfl

-- connect() is called, and it succeeds or has to be waited for.
structure Reaches (env : ConnectEnv) (bindIface remoteHost : String) (port : UInt16) : Prop where
  arguments : remoteHost ≠ "" ∧ port ≠ 0
  socket : 0 ≤ env.socket
  prepared : env.setsockopt = true ∧ (bindIface = "" ∨ env.bindToDevice = true) ∧ env.inetPton = true
  connects : env.connect = true ∨ env.inProgress = true

theorem connect_only (env : ConnectEnv) (sock : Int) (bindIface remoteHost : String) (port : UInt16)
    : Only env.socket (connect env sock bindIface remoteHost port) := by
  unfold connect
  dsimp only
  split
  . apply Only.none
  split
  . apply Only.none
  split
  . apply Only.none
  split
  . split
    . split
      . apply Only.single
      . apply Only.single
    . apply Only.none
  . apply Only.none

theorem connect_fails_iff (env : ConnectEnv) (sock : Int) (bindIface remoteHost : String)
    (port : UInt16)
    : (connect env sock bindIface remoteHost port).sets = [] ∧
        (connect env sock bindIface remoteHost port).result.1 < 0
        ↔ ¬Reaches env bindIface remoteHost port := by
  unfold connect
  dsimp only
  split
  . next harguments =>
    have hnot : ¬Reaches env bindIface remoteHost port :=
      fun h => harguments.elim h.arguments.1 h.arguments.2
    simp [hnot]
  next harguments =>
  split
  . next hsocket =>
    have hnot : ¬Reaches env bindIface remoteHost port := fun h => absurd h.socket (by omega)
    simp [hnot]
  next hsocket =>
  split
  . next hfailed =>
    have hnot : ¬Reaches env bindIface remoteHost port := by
      intro h
      obtain ⟨hsetsockopt, hbind, hinet⟩ := h.prepared
      simp only [hsetsockopt, hinet] at hfailed
      cases hbind with
      | inl hbind => simp [hbind] at hfailed
      | inr hbind => simp [hbind] at hfailed
    simp [hnot]
  next hprepared =>
  have hreaches : env.connect = true ∨ env.inProgress = true → Reaches env bindIface remoteHost port := by
    intro hconnects
    simp only [not_or, not_and, Bool.not_eq_true, Bool.not_eq_false'] at hprepared
    refine ⟨not_or.mp harguments, by omega, ⟨hprepared.1, ?_, hprepared.2.2⟩, hconnects⟩
    by_cases hbind : bindIface = ""
    . exact .inl hbind
    . exact .inr (hprepared.2.1 hbind)
  split
  . next hconnect =>
    split
    . next hinProgress =>
      have h := hreaches (.inr hinProgress)
      split
      . simp [h]
      . simp [h]
    . next hinProgress =>
      have hnot : ¬Reaches env bindIface remoteHost port := by
        intro h
        have hconnects := h.connects
        rw [Bool.not_eq_true'] at hconnect
        simp [hconnect, hinProgress] at hconnects
      simp [hnot]
  . next hconnect =>
    have h := hreaches (.inl (by simpa using hconnect))
    simp [h]

theorem connect_guards_iff (env : ConnectEnv) (sock : Int) (bindIface remoteHost : String)
    (port : UInt16)
    : Guards env.socket (connect env sock bindIface remoteHost port).sets
        ((connect env sock bindIface remoteHost port).result.1 < 0)
        ↔ env.socket < fdSetSize ∨ ¬Reaches env bindIface remoteHost port := by
  rw [(connect_only env sock bindIface remoteHost port).guards_iff, connect_fails_iff]

theorem serverThread_erase (ctx : TransportCtx) (envs : List Environment)
    : (serverThread ctx envs).result = (Tcp.serverThread ctx envs).1 := by
  induction envs generalizing ctx with
  | nil => rfl
  | cons env envs ih => apply ih

theorem place_inRange {newSocket : Int} {fds fds' : List Int} (hnew : newSocket < fdSetSize)
    (h : place newSocket fds = some fds') (hfds : InRange fds)
    : InRange fds' := by
  induction fds generalizing fds' with
  | nil => contradiction
  | cons sd fds ih =>
    have hrest : InRange fds := fun fd hfd => hfds fd (List.mem_cons_of_mem _ hfd)
    unfold place at h
    split at h
    . injection h with h
      subst h
      intro fd hfd
      cases hfd with
      | head => exact hnew
      | tail _ hfd => exact hrest fd hfd
    . obtain ⟨rest, hplace, rfl⟩ := Option.map_eq_some_iff.mp h
      intro fd hfd
      cases hfd with
      | head => exact hfds sd List.mem_cons_self
      | tail _ hfd => exact ih hplace hrest fd hfd

-- A client whose descriptor is out of range is turned away.
theorem acceptClient_inRange {cfg : TransportConfig} {env : Environment} {fds fds' : List Int}
    (h : (acceptClient cfg env fds).1 = some fds') (hfds : InRange fds)
    : InRange fds' := by
  unfold acceptClient at h
  dsimp only at h
  split at h
  . contradiction
  split at h
  . contradiction
  next hnew =>
  split at h
  . contradiction
  next hplace =>
  injection h with h
  subst h
  exact place_inRange (by omega) hplace hfds

theorem forSlots_inRange {cfg : TransportConfig} {visit : Nat → Int → Int × List ThreadEvent}
    (hvisit : Visiting cfg visit) (i : Nat) {fds : List Int} (hfds : InRange fds)
    : InRange (forSlots visit i fds).1 := by
  induction fds generalizing i with
  | nil => exact hfds
  | cons sd fds ih =>
    have hrest : InRange fds := fun fd hfd => hfds fd (List.mem_cons_of_mem _ hfd)
    have hsd : sd < fdSetSize := hfds sd List.mem_cons_self
    have hslot : (visit i sd).1 < fdSetSize := by
      by_cases hocc : 0 ≤ sd
      . obtain hkept | ⟨event, -, hkept | hclosed⟩ := hvisit.occupied i sd hocc
        . rw [hkept]
          exact hsd
        . rw [hkept]
          exact hsd
        . rw [hclosed]
          show -1 < (1024 : Int)
          decide
      . rw [hvisit.free i sd hocc]
        exact hsd
    intro fd hfd
    unfold forSlots at hfd
    cases hfd with
    | head => exact hslot
    | tail _ hfd => exact ih (i + 1) hrest fd hfd

theorem iteration_inRange (ctx : TransportCtx) (env : Environment) (h : InRange ctx.clientFds)
    : InRange (iteration ctx env).1.clientFds := by
  unfold iteration
  dsimp only
  split
  . exact h
  split
  . exact forSlots_inRange (checkIdle_visiting ctx.cfg env) 0 h
  split
  . exact h
  next fds haccepted =>
  apply forSlots_inRange (processClient_visiting ctx.cfg env _) 0
  split at haccepted
  . exact acceptClient_inRange haccepted h
  . injection haccepted with haccepted
    subst haccepted
    exact h

theorem fdSet_inRange_iff {ctx : TransportCtx} (h : InRange ctx.clientFds)
    : InRange (fdSet ctx) ↔ ctx.listenSock < fdSetSize := by
  constructor
  . intro hrange
    exact hrange ctx.listenSock List.mem_cons_self
  . intro hlisten fd hfd
    cases hfd with
    | head => exact hlisten
    | tail _ hfd => exact h fd (List.mem_of_mem_filter hfd)

theorem serverThread_inRange_iff (ctx : TransportCtx) (envs : List Environment)
    (h : InRange ctx.clientFds)
    : InRange (serverThread ctx envs).sets ↔ ctx.listenSock < fdSetSize ∨ envs = [] := by
  induction envs generalizing ctx with
  | nil => simp [serverThread, InRange]
  | cons env envs ih =>
    have hkeeps := (iteration_keeps ctx env).1
    have hset := fdSet_inRange_iff h
    have hlater := ih (iteration ctx env).1 (iteration_inRange ctx env h)
    rw [hkeeps] at hlater
    have hboth : InRange (serverThread ctx (env :: envs)).sets
        ↔ InRange (fdSet ctx) ∧ InRange (serverThread (iteration ctx env).1 envs).sets := by
      apply inRange_append
    rw [hboth, hset, hlater]
    constructor
    . intro hrange
      exact .inl hrange.1
    . intro hor
      have hlisten := hor.resolve_right (List.cons_ne_nil env envs)
      exact ⟨hlisten, .inl hlisten⟩

theorem acceptClient_rejects (cfg : TransportConfig) {env : Environment} (fds : List Int)
    (h : fdSetSize ≤ env.accept)
    : acceptClient cfg env fds = (none, [.accept, .close env.accept]) := by
  have hpos : ¬env.accept < 0 := by
    have hsize : (0 : Int) ≤ fdSetSize := by decide
    omega
  unfold acceptClient
  dsimp only
  rw [if_neg hpos, if_pos h]

-- A server from its start on.
theorem start_inRange_iff {env : StartEnv} {owner : Owner} {ctx : Ctx} {cfg : Config}
    (hmode : cfg.mode = .listenServer) (hstart : (start env owner ctx cfg).1 = 0)
    (envs : List Environment)
    : InRange (serverThread (start env owner ctx cfg).2.1.transport envs).sets
        ↔ env.socket < fdSetSize ∨ envs = [] := by
  obtain ⟨slots, cap, -, heq⟩ := start_listening hmode hstart
  have hfree : InRange (List.replicate cap.toNat (-1)) := by
    intro fd hfd
    rw [List.eq_of_mem_replicate hfd]
    decide
  rw [heq]
  apply serverThread_inRange_iff
  exact hfree

theorem start_guards_iff {env : StartEnv} {owner : Owner} {ctx : Ctx} {cfg : Config}
    (hmode : cfg.mode = .listenServer) (hstart : (start env owner ctx cfg).1 = 0)
    (envs : List Environment)
    : Guards env.socket (serverThread (start env owner ctx cfg).2.1.transport envs).sets
        ((start env owner ctx cfg).1 ≠ 0)
        ↔ env.socket < fdSetSize := by
  have hrange := start_inRange_iff hmode hstart envs
  constructor
  . intro hguards
    by_contra hfd
    exact hguards.rejected (Int.not_lt.mp hfd) hstart
  . intro hfd
    constructor
    . exact hrange.mpr (.inl hfd)
    . intro hlarge
      exact absurd hfd (Int.not_lt.mpr hlarge)

end Tcp.WithSets
