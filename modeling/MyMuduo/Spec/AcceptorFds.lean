import MyMuduo.Lib.Descriptors
import MyMuduo.Spec.Acceptor

/-!
# The acceptor's system calls (`Net/acceptor.cpp`)

`handleConnect` call by call, over the descriptors of the process. In between other threads open and
close descriptors of their own, and further clients connect.

`m_idle_fd` is reserved for the day when `accept4` fails with `EMFILE`: it is closed, the number it
leaves is used to accept a connection, which is closed at once, and then it is opened again. Another
thread can be faster and take the number.

The kernel looks for a free number before it looks at the backlog, so with no number left `accept4`
fails with `EMFILE` whether a client waits or not. A call can also fail for another reason, its `errno`
in the label of the step.
-/

namespace MyMuduo

open Lib

/-- What a descriptor stands for, and whose it is. -/
inductive FdObject where
  /-- `m_listen_fd` -/
  | listening
  /-- `/dev/null`, opened by the acceptor -/
  | devNull
  /-- a connection that the acceptor accepted to close it -/
  | turnedAway (client : ℕ)
  /-- a connection given to `m_new_connection_callback` -/
  | connection (client : ℕ)
  /-- a descriptor of another part of the program -/
  | other
  deriving DecidableEq, Repr

/-- The acceptor closes it. -/
def FdObject.ofAcceptor : FdObject → Bool
  | listening | devNull | turnedAway _ => true
  | connection _ | other => false

/-- Where `handleConnect` is. -/
inductive ConnectPc where
  | outside
  /-- `accept4` failed with `EMFILE` -/
  | outOfFds
  /-- behind `close(m_idle_fd)` -/
  | idleClosed
  /-- behind `m_idle_fd = accept(..)` -/
  | accepted
  /-- behind the second `close(m_idle_fd)` -/
  | turnedAway
  /-- behind `~Acceptor()` -/
  | destroyed
  deriving DecidableEq, Repr

/-- The handler of the active channel returns. -/
def Acceptor.handled (s : Acceptor) : Acceptor :=
  match s.pc with
  | .handlers (_ :: rest) => { s with pc := .handlers rest }
  | _ => s

structure AcceptorFds where
  acceptor : Acceptor
  /-- the descriptors of the process -/
  fds : Descriptors FdObject
  /-- `none` is -1 -/
  m_idle_fd : Option ℕ
  pc : ConnectPc
  /-- the clients that connected, oldest first -/
  arrived : List ℕ
  /-- the clients taken from the backlog, and whether they were served -/
  taken : List (ℕ × Bool)

namespace AcceptorFds

/-- `Acceptor(loop, address)`; without a descriptor to listen on the program exits. -/
def new (self : ℕ) (fds : Descriptors FdObject) (ep : Epoller) : Option AcceptorFds :=
  (fds.alloc .listening).map fun (m_listen_fd, fds) =>
    let idle := fds.alloc .devNull
    { acceptor := .new self m_listen_fd ep
      fds := (idle.map Prod.snd).getD fds
      m_idle_fd := idle.map Prod.fst
      pc := .outside
      arrived := []
      taken := [] }

variable (s : AcceptorFds)

def m_listen_fd : ℕ := s.acceptor.m_accept_channel.m_fd

/-- `close(fd)`, which may be -1. -/
def closeFd (fds : Descriptors FdObject) (fd : Option ℕ) : Descriptors FdObject :=
  match fd with
  | some fd => fds.close fd
  | none => fds

/-- `handleConnect` returns. -/
def returns : AcceptorFds := { s with pc := .outside, acceptor := s.acceptor.handled }

/-- `accept4(..)`, and the rest of `handleConnect` unless it is out of descriptors. -/
def accept4 (errno : Option ℕ) : AcceptorFds :=
  match errno with
  | some _ => s.returns
  | none =>
    match s.acceptor.backlog with
    | [] =>
      -- `EAGAIN`, once there is a number
      if (s.fds.alloc .other).isSome then s.returns else { s with pc := .outOfFds }
    | client :: rest =>
      match s.fds.alloc (.connection client) with
      | none => { s with pc := .outOfFds }
      | some (_, fds) =>
        { s with
          acceptor := { s.acceptor with backlog := rest, accepted := s.acceptor.accepted ++ [client] }
          fds := fds
          taken := s.taken ++ [(client, true)] }.returns

/-- `close(m_idle_fd)`. -/
def closeIdle (pc : ConnectPc) : AcceptorFds :=
  { s with fds := closeFd s.fds s.m_idle_fd, pc := pc }

/-- `m_idle_fd = accept(m_listen_fd, nullptr, nullptr)`. -/
def accept (errno : Option ℕ) : AcceptorFds :=
  match errno, s.acceptor.backlog with
  | none, client :: rest =>
    match s.fds.alloc (.turnedAway client) with
    | none => { s with m_idle_fd := none, pc := .accepted }
    | some (fd, fds) =>
      { s with
        acceptor := { s.acceptor with backlog := rest }
        fds := fds
        m_idle_fd := some fd
        pc := .accepted
        taken := s.taken ++ [(client, false)] }
  | _, _ => { s with m_idle_fd := none, pc := .accepted }

/-- `m_idle_fd = open("/dev/null")`. -/
def openIdle (errno : Option ℕ) : AcceptorFds :=
  match errno, s.fds.alloc .devNull with
  | none, some (fd, fds) => { s with fds := fds, m_idle_fd := some fd }.returns
  | _, _ => { s with m_idle_fd := none }.returns

end AcceptorFds

inductive FdStep where
  /-- a step of the loop or of a client -/
  | round (a : AcceptStep)
  | accept4 (errno : Option ℕ)
  /-- the first `close(m_idle_fd)` -/
  | closeIdle
  | accept (errno : Option ℕ)
  /-- the second `close(m_idle_fd)` -/
  | closeAccepted
  | openIdle (errno : Option ℕ)
  /-- `~Acceptor()` -/
  | destroy
  /-- another thread opens a descriptor -/
  | otherOpens
  /-- the owner of a descriptor closes it -/
  | otherCloses (fd : ℕ)
  deriving DecidableEq, Repr

/-- The step is one of the acceptor. -/
def FdStep.ofAcceptor : FdStep → Bool
  | .otherOpens | .otherCloses _ => false
  | .round _ | .accept4 _ | .closeIdle | .accept _ | .closeAccepted | .openIdle _ | .destroy => true

namespace AcceptorFds

/-- `handleConnect` is the next handler. -/
def connects (s : AcceptorFds) : Bool :=
  match s.acceptor.pc with
  | .handlers (.listening :: _) => true
  | _ => false

/-- One step. -/
def step (s : AcceptorFds) : FdStep → Option AcceptorFds
  | .round (.arrive client) =>
    if s.pc = .destroyed then none
    else (s.acceptor.step (.arrive client)).map fun acceptor =>
      { s with acceptor := acceptor, arrived := s.arrived ++ [client] }
  | .round (.handler errno) =>
    if s.pc = .outside ∧ ¬ s.connects then
      (s.acceptor.step (.handler errno)).map fun acceptor => { s with acceptor := acceptor }
    else none
  | .round a =>
    if s.pc = .outside then (s.acceptor.step a).map fun acceptor => { s with acceptor := acceptor } else none
  | .accept4 errno =>
    -- `EMFILE` only if there is no number left
    if s.pc = .outside ∧ s.connects ∧ errno ≠ some EMFILE then some (s.accept4 errno) else none
  | .closeIdle => if s.pc = .outOfFds then some (s.closeIdle .idleClosed) else none
  | .accept errno => if s.pc = .idleClosed then some (s.accept errno) else none
  | .closeAccepted => if s.pc = .accepted then some (s.closeIdle .turnedAway) else none
  | .openIdle errno => if s.pc = .turnedAway then some (s.openIdle errno) else none
  | .destroy =>
    -- the loop is over
    if s.pc = .outside ∧ ¬ s.connects then
      some { s with fds := closeFd (s.fds.close s.m_listen_fd) s.m_idle_fd, pc := .destroyed }
    else none
  | .otherOpens => (s.fds.alloc .other).map fun (_, fds) => { s with fds := fds }
  | .otherCloses fd =>
    match s.fds.get fd with
    | some (.connection _) | some .other => some { s with fds := s.fds.close fd }
    | _ => none

end AcceptorFds

end MyMuduo
