import MyMuduo.Lib.Run
import MyMuduo.Spec.TcpConnection

/-!
# Shutting a connection down while it sends (`Net/tcpconnection.cpp`)

`shutDown()` may be called from any thread. It tests and writes `m_state`, and leaves the
rest to the loop thread: `shutDownInLoop` is called at once there, and queued elsewhere. The
loop thread sends, drains the output buffer on write events and runs the queued functors.

A step ends where another thread can make a difference: at each test and write of `m_state`.
So `send` is cut behind its test, `handleWrite` before the one it makes once the buffer is
drained, and `shutDown` is three steps.
-/

namespace MyMuduo

open Lib

variable {Q : Type} [ByteQueue Q]

/-- `handleWrite()` up to its test of `m_state`; the flag tells whether it comes to it. -/
def TcpConnection.drain (ep : Epoller) (c : TcpConnection Q) (r : Except ℕ ℕ) :
    Except Failure (Epoller × TcpConnection Q × Bool) :=
  if c.m_channel.isWriting then
    let n := accepted r c.output.length
    let c := { c with trace := c.trace ++ [.write], wire := c.wire ++ c.output.take n }
    if 0 < n then
      let c := { c with m_output_buffer := ByteQueue.retrieve c.m_output_buffer n }
      if c.output = [] then
        match disableWriting ep c with
        | .ok (ep, c) => .ok (ep, c, true)
        | .error e => .error e
      else .ok (ep, c, false)
    else .ok (ep, c, false)
  else .ok (ep, c, false)

/-- The rest of `handleWrite()`. -/
def TcpConnection.drained (c : TcpConnection Q) : TcpConnection Q :=
  if c.m_state = .kDisconnecting then c.shutDownInLoop else c

/-- Where the loop thread is. -/
inductive SenderPc where
  /-- in none of these calls -/
  | idle
  /-- in `send`, after its test -/
  | sending (msg : Bytes)
  /-- in `handleWrite`, before its test -/
  | drained
  /-- in `shutDown`, after its test, and after its write -/
  | tested
  | stored
  deriving DecidableEq, Repr

/-- Where another thread is in a call of `shutDown`. -/
inductive CallerPc where
  | idle | tested | stored
  deriving DecidableEq, Repr

/-- A connection in its loop, and threads that call `shutDown` on it. -/
structure Shutdown (Q : Type) where
  m_epoller : Epoller
  conn : TcpConnection Q
  pc : SenderPc
  threads : ℕ → CallerPc
  /-- how many `shutDownInLoop` are queued for the loop thread -/
  functors : ℕ

inductive ShutdownStep where
  /-- `send(msg)` in the loop thread: its test, and then `sendInLoop` -/
  | send (msg : Bytes)
  | sendInLoop (r : Except ℕ ℕ)
  /-- a write event, and then the test of a drained buffer -/
  | handleWrite (r : Except ℕ ℕ)
  | drained
  /-- the next queued `shutDownInLoop` -/
  | functor
  /-- `shutDown()` in the loop thread: its next step -/
  | shutDown
  /-- `shutDown()` in another thread: its next step -/
  | call (thread : ℕ)
  deriving Repr

namespace Shutdown

/-- A connection just established, with no call under way. -/
def start (ep : Epoller) (c : TcpConnection Q) : Shutdown Q := ⟨ep, c, .idle, fun _ => .idle, 0⟩

variable (s : Shutdown Q)

/-- The next step of `shutDown()` in the loop thread. -/
def shutDown : Option (Shutdown Q) :=
  match s.pc with
  | .idle => some (if s.conn.m_state = .kConnected then { s with pc := .tested } else s)
  | .tested => some { s with conn := { s.conn with m_state := .kDisconnecting }, pc := .stored }
  | .stored => some { s with conn := s.conn.shutDownInLoop, pc := .idle }
  | .sending _ | .drained => none

/-- The next step of `shutDown()` in another thread. -/
def call (thread : ℕ) : Shutdown Q :=
  let goto (s : Shutdown Q) (pc : CallerPc) := { s with threads := Function.update s.threads thread pc }
  match s.threads thread with
  | .idle => if s.conn.m_state = .kConnected then goto s .tested else s
  | .tested => goto { s with conn := { s.conn with m_state := .kDisconnecting } } .stored
  | .stored => goto { s with functors := s.functors + 1 } .idle

/-- One step. A broken pipe is not among the results of `::write`. -/
def step : ShutdownStep → Option (Shutdown Q)
  | .send msg =>
    if s.pc = .idle then
      some (if s.conn.m_state = .kConnected then { s with pc := .sending msg } else s)
    else none
  | .sendInLoop r =>
    match s.pc with
    | .sending msg =>
      if TcpConnection.faultError r then none
      else match s.conn.sendInLoop s.m_epoller msg r with
        | .ok (ep, c) => some { s with m_epoller := ep, conn := c, pc := .idle }
        | .error _ => none
    | _ => none
  | .handleWrite r =>
    if s.pc = .idle then
      match s.conn.drain s.m_epoller r with
      | .ok (ep, c, drained) =>
        some { s with m_epoller := ep, conn := c, pc := if drained then .drained else .idle }
      | .error _ => none
    else none
  | .drained =>
    if s.pc = .drained then some { s with conn := s.conn.drained, pc := .idle } else none
  | .functor =>
    if s.pc = .idle ∧ 0 < s.functors then
      some { s with conn := s.conn.shutDownInLoop, functors := s.functors - 1 }
    else none
  | .shutDown => s.shutDown
  | .call thread => some (s.call thread)

end Shutdown

end MyMuduo
