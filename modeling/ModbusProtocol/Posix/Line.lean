import Mathlib.Algebra.Group.Nat.Defs
import Mathlib.Data.List.Basic

/-!
This module contains one end of a byte stream as a program sees it through system calls, either a
serial port or a connected socket. `incoming` holds what the other end will still send, each byte with
the time at which it can be read, `turns` says how the coming system calls go: how long they take, how
much they move and whether they fail. Once the turns are used up every call is immediate, moves one byte
and succeeds. The unit of time is the program's, microseconds for the servers and nanoseconds for the
clients.
-/

namespace Posix

structure Arrival where
  time : Nat
  byte : UInt8
  deriving DecidableEq, Repr

inductive Outcome where
  | done
  -- end of file, a zero return value
  | hangup
  -- EINTR
  | intr
  -- EAGAIN, EWOULDBLOCK or, from a receive, ETIMEDOUT
  | again
  | error
  deriving DecidableEq, Repr

structure Turn where
  delay : Nat
  limit : Nat
  outcome : Outcome
  deriving DecidableEq, Repr

structure Line where
  now : Nat
  incoming : List Arrival
  outgoing : List UInt8
  turns : List Turn
  -- SO_RCVTIMEO
  recvTimeout : Option Nat
  deriving DecidableEq, Repr

-- What a call that moves bytes returns.
inductive Return where
  | bytes (chunk : List UInt8)
  | hangup
  | intr
  | again
  | error
  deriving DecidableEq, Repr

inductive Ready where
  | ready
  | timeout
  | intr
  | error
  deriving DecidableEq, Repr

namespace Line

def bytes (l : Line) : List UInt8 :=
  l.incoming.map Arrival.byte

def pass (l : Line) (us : Nat) : Line :=
  { l with now := l.now + us }

def wake (l : Line) (time : Nat) : Line :=
  { l with now := max l.now time }

def turn (l : Line) : Turn × Line :=
  match l.turns with
  | [] => (⟨0, 0, .done⟩, l)
  | turn :: turns => (turn, { l with turns := turns }.pass turn.delay)

-- The bytes that can be read without waiting.
def arrived (l : Line) : Nat :=
  (l.incoming.takeWhile (·.time ≤ l.now)).length

def deliver (l : Line) (k : Nat) : Return × Line :=
  (.bytes ((l.incoming.take k).map Arrival.byte), { l with incoming := l.incoming.drop k })

-- read() on a serial port with VMIN and VTIME zero, which returns at once and empty when nothing has
-- arrived
def read (l : Line) (n : Nat) : Return × Line :=
  let (turn, l) := l.turn
  match turn.outcome with
  | .hangup => (.hangup, l)
  | .intr => (.intr, l)
  | .again => (.again, l)
  | .error => (.error, l)
  | .done =>
    if l.arrived = 0 ∨ n = 0 then
      (.hangup, l)
    else
      l.deliver (min l.arrived (min n (turn.limit + 1)))

-- recv() on a blocking socket. The peer closes the connection once it has nothing left to send, or
-- leaves the receive timeout to end the wait.
def recv (l : Line) (n : Nat) : Return × Line :=
  let (turn, l) := l.turn
  match turn.outcome with
  | .hangup => (.hangup, l)
  | .intr => (.intr, l)
  | .again => (.again, l)
  | .error => (.error, l)
  | .done =>
    match l.incoming, l.recvTimeout with
    | [], none => (.hangup, l)
    | [], some timeout => (.again, l.pass timeout)
    | next :: _, timeout =>
      if timeout.any fun timeout => l.now + timeout < next.time then
        (.again, l.pass (timeout.getD 0))
      else
        let l := l.wake next.time
        l.deliver (min l.arrived (min n (turn.limit + 1)))

def write (l : Line) (buf : List UInt8) : Return × Line :=
  let (turn, l) := l.turn
  match turn.outcome with
  | .hangup => (.hangup, l)
  | .intr => (.intr, l)
  | .again => (.again, l)
  | .error => (.error, l)
  | .done =>
    let chunk := buf.take (turn.limit + 1)
    (.bytes chunk, { l with outgoing := l.outgoing ++ chunk })

-- select() or poll() for input, for at most `timeout`
def select (l : Line) (timeout : Nat) : Ready × Line :=
  let (turn, l) := l.turn
  match turn.outcome with
  | .hangup => (.ready, l)
  | .intr => (.intr, l)
  | .again => (.error, l)
  | .error => (.error, l)
  | .done =>
    match l.incoming with
    | [] => (.timeout, l.pass timeout)
    | next :: _ =>
      if next.time ≤ l.now + timeout then
        (.ready, l.wake next.time)
      else
        (.timeout, l.pass timeout)

-- How long a wait without a limit lasts when nothing comes, longer than any that has a limit.
def endless : Nat := 1000000 * 2 ^ 64

-- poll() for input, for at most `timeout` or for as long as it takes. The peer closes the connection in the
-- end.
def poll (l : Line) (timeout : Option Nat) : Ready × Line :=
  match timeout with
  | some timeout => l.select timeout
  | none =>
    let (turn, l) := l.turn
    match turn.outcome with
    | .hangup => (.ready, l)
    | .intr => (.intr, l)
    | .again => (.error, l)
    | .error => (.error, l)
    | .done =>
      match l.incoming with
      | [] => (.ready, l.pass endless)
      | next :: _ => (.ready, l.wake next.time)

-- tcdrain()
def drain (l : Line) : Bool × Line :=
  let (turn, l) := l.turn
  (turn.outcome = .done, l)

-- clock_gettime(CLOCK_MONOTONIC), `none` when it fails
def clock (l : Line) : Option Nat × Line :=
  let (turn, l) := l.turn
  (if turn.outcome = .error then none else some l.now, l)

-- nanosleep(), resumed until the time asked for has passed
def sleep (l : Line) (us : Nat) : Line :=
  let (_, l) := l.turn
  l.pass us

-- tcflush(TCIFLUSH)
def flush (l : Line) : Line :=
  let (_, l) := l.turn
  { l with incoming := l.incoming.drop l.arrived }

-- How a loop over one of these calls has ended.
inductive Status where
  | ok
  | hangup
  | again
  | error
  deriving DecidableEq, Repr

-- Every round of the loops below uses up a turn or moves a byte.
def effort (l : Line) : Nat :=
  l.turns.length + l.incoming.length

-- Receives until `len` bytes are there, starting over when interrupted. What has been received comes
-- with the status, also on failure.
def recvLoop (l : Line) (len : Nat) : Nat → Status × List UInt8 × Line
  | 0 => (.error, [], l)
  | fuel + 1 =>
    if len = 0 then
      (.ok, [], l)
    else
      match l.recv len with
      | (.bytes chunk, l) =>
        let (status, rest, l) := recvLoop l (len - chunk.length) fuel
        (status, chunk ++ rest, l)
      | (.intr, l) => recvLoop l len fuel
      | (.hangup, l) => (.hangup, [], l)
      | (.again, l) => (.again, [], l)
      | (.error, l) => (.error, [], l)

def recvAll (l : Line) (len : Nat) : Status × List UInt8 × Line :=
  l.recvLoop len (l.effort + 1)

-- Writes all of `buf`, starting over when interrupted. With `retry` a full output buffer is waited
-- for, without it ends the loop.
def writeLoop (retry : Bool) (l : Line) (buf : List UInt8) : Nat → Bool × Line
  | 0 => (false, l)
  | fuel + 1 =>
    if buf = [] then
      (true, l)
    else
      match l.write buf with
      | (.bytes chunk, l) => writeLoop retry l (buf.drop chunk.length) fuel
      | (.intr, l) => writeLoop retry l buf fuel
      | (.again, l) =>
        if retry then
          writeLoop retry l.turn.2 buf fuel
        else
          (false, l)
      | (.hangup, l) => (false, l)
      | (.error, l) => (false, l)

def writeAll (retry : Bool) (l : Line) (buf : List UInt8) : Bool × Line :=
  l.writeLoop retry buf (l.turns.length + buf.length + 1)

end Line

end Posix
