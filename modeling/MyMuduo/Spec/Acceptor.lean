import MyMuduo.Lib.Run
import MyMuduo.Spec.Epoller

/-!
# The acceptor (`Net/acceptor.cpp`)

The listening channel in the round of its loop: wait, run the handlers of the active
channels, run the pending functors. Clients connect at any time, once `listen` was called.

The kernel keeps the backlog of completed connections and, for an edge-triggered descriptor,
whether a report is due (`edge`). A report becomes due when a connection completes, or at the
registration of a descriptor that is readable already; `epoll_wait` delivers it once, however
many connections completed in between. A level-triggered descriptor would be reported as long
as the backlog is not empty.

The other channels of the loop, and its functors, do not touch the listening descriptor.
-/

namespace MyMuduo

open Lib

def EPOLLET : Events := 0x80000000
def EMFILE : ℕ := 24

/-- An active channel: the listening one, or any other. -/
inductive AcceptChannel where
  | listening | other
  deriving DecidableEq, Repr

/-- Where the loop thread is. -/
inductive AcceptPc where
  /-- before `Listen()` -/
  | constructed
  /-- in `Listen()`, after the system call -/
  | listen
  /-- in `epoll_wait` -/
  | poll
  /-- in the loop over the active channels -/
  | handlers (rest : List AcceptChannel)
  /-- in `doPendingFunctors`, or before the first round -/
  | functors
  deriving DecidableEq, Repr

structure Acceptor where
  /-- the address of `m_accept_channel` -/
  self : ℕ
  m_accept_channel : Channel
  m_epoller : Epoller
  /-- the completed connections, oldest first -/
  backlog : List ℕ
  /-- a report of the edge-triggered descriptor is due -/
  edge : Bool
  pc : AcceptPc
  /-- the connections given to `m_new_connection_callback` -/
  accepted : List ℕ

namespace Acceptor

/-- `Acceptor(loop, address)`. -/
def new (self listen_fd : ℕ) (ep : Epoller) : Acceptor where
  self := self
  m_accept_channel := { Channel.new listen_fd with m_events := EPOLLIN ||| EPOLLET }
  m_epoller := ep
  backlog := []
  edge := false
  pc := .constructed
  accepted := []

variable (s : Acceptor)

/-- The events the kernel has for the listening descriptor. -/
def interest : Option Events := (s.m_epoller.interest s.m_accept_channel.m_fd).map Prod.fst

/-- `epoll_wait` may report the listening descriptor. -/
def reportable : Bool :=
  match s.interest with
  | none => false
  | some events => if events &&& EPOLLET ≠ 0 then s.edge else s.backlog ≠ []

/-- The rest of `Listen()`: `enableReading`, which registers the channel. A descriptor that is
readable already is due at once. -/
def enableReading : Except Failure Acceptor :=
  let channel := { s.m_accept_channel with m_events := s.m_accept_channel.m_events ||| kReadEvent }
  match s.m_epoller.updateChannel s.self channel with
  | .ok (ep, channel) =>
    .ok { s with m_accept_channel := channel, m_epoller := ep, edge := s.backlog ≠ [], pc := .functors }
  | .error e => .error e

/-- `handleConnect()`: `accept4` takes the oldest connection, unless it fails with `errno`.
Out of descriptors, the acceptor gives up its idle one and accepts and closes a connection
with it. -/
def handleConnect (errno : Option ℕ) : Acceptor :=
  match errno, s.backlog with
  | none, client :: rest => { s with backlog := rest, accepted := s.accepted ++ [client] }
  | none, [] => s
  | some e, backlog => if e = EMFILE then { s with backlog := backlog.tail } else s

end Acceptor

inductive AcceptStep where
  /-- the system call of `Listen()`, and the rest of it -/
  | listen
  | enableReading
  /-- a client's connection completes -/
  | arrive (client : ℕ)
  /-- `epoll_wait` returns -/
  | poll (active : List AcceptChannel)
  /-- the handler of the next active channel; `accept4`, if it comes to one, fails with `errno` -/
  | handler (errno : Option ℕ)
  /-- the loop goes on to its functors, and to the next round -/
  | loop
  deriving DecidableEq, Repr

/-- One step. -/
def Acceptor.step (s : Acceptor) : AcceptStep → Option Acceptor
  | .listen => if s.pc = .constructed then some { s with pc := .listen } else none
  | .enableReading => if s.pc = .listen then s.enableReading.toOption else none
  | .arrive client =>
    if s.pc = .constructed then none
    else some { s with backlog := s.backlog ++ [client], edge := s.edge || s.interest.isSome }
  | .poll active =>
    if s.pc = .poll ∧ active.count .listening ≤ 1 ∧
        (AcceptChannel.listening ∈ active → s.reportable) then
      -- the report is delivered once
      some { s with edge := s.edge && AcceptChannel.listening ∉ active, pc := .handlers active }
    else none
  | .handler errno =>
    match s.pc with
    | .handlers (.listening :: rest) => some { s.handleConnect errno with pc := .handlers rest }
    | .handlers (.other :: rest) => some { s with pc := .handlers rest }
    | _ => none
  | .loop =>
    match s.pc with
    | .handlers [] => some { s with pc := .functors }
    | .functors => some { s with pc := .poll }
    | _ => none

end MyMuduo
