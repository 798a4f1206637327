import Mathlib.Tactic

/-!
# Channels and the epoller (`Net/channel.h`, `Net/epoller.cpp`)

A `Channel` keeps the events its owner wants and an index that says what the epoller
knows about it. The `Epoller` keeps the map `m_channels` from descriptors to channels;
beside it stands the kernel's interest set, which only `epoll_ctl` changes. A channel is
referred to by the address of the object that owns it.

A failed assertion of the source ends the program: it is an error of the `Except` monad.

`Poll` is one epoller with all the channels of its loop, and the calls that the owners of the
channels make on them.
-/

namespace MyMuduo

/-- What ends the program: an assertion, or the use of an object that is gone. -/
inductive Failure where
  | updateChannel | removeChannel | handleClose | dangling
  deriving DecidableEq, Repr

inductive ChannelIndex where
  | kNew | kAdded | kDeleted
  deriving DecidableEq, Repr

/-- An event mask. -/
abbrev Events := BitVec 32

def EPOLLIN : Events := 1
def EPOLLPRI : Events := 2
def EPOLLOUT : Events := 4
def EPOLLRDHUP : Events := 0x2000

def kNoneEvent : Events := 0
def kReadEvent : Events := EPOLLIN ||| EPOLLPRI
def kWriteEvent : Events := EPOLLOUT

structure Channel where
  m_fd : ℕ
  m_events : Events
  m_index : ChannelIndex
  deriving DecidableEq, Repr

namespace Channel

/-- `Channel(loop, fd)`. -/
def new (fd : ℕ) : Channel := ⟨fd, 0, .kNew⟩

def isRegistered (ch : Channel) : Bool := ch.m_events ≠ 0

def isWriting (ch : Channel) : Bool := ch.m_events &&& kWriteEvent ≠ 0

end Channel

/-- The operations of `epoll_ctl`. -/
inductive EpollOp where
  | add | mod | del
  deriving DecidableEq, Repr

structure Epoller where
  m_channels : ℕ → Option ℕ
  /-- the kernel's interest set: the events of a descriptor and the channel registered with it -/
  interest : ℕ → Option (Events × ℕ)

namespace Epoller

def new : Epoller := ⟨fun _ => none, fun _ => none⟩

variable (ep : Epoller) (channel : ℕ) (ch : Channel)

/-- `update(op, channel)`: `epoll_ctl` refuses to add what is there and to modify or
delete what is not; the refusal is only logged. -/
def update (op : EpollOp) : Epoller :=
  match op, ep.interest ch.m_fd with
  | .add, none | .mod, some _ =>
    { ep with interest := Function.update ep.interest ch.m_fd (some (ch.m_events, channel)) }
  | .del, some _ => { ep with interest := Function.update ep.interest ch.m_fd none }
  | .add, some _ | .mod, none | .del, none => ep

def updateChannel : Except Failure (Epoller × Channel) :=
  match ch.m_index with
  | .kNew =>
    let ep := { ep with m_channels := Function.update ep.m_channels ch.m_fd (some channel) }
    let ch := { ch with m_index := .kAdded }
    .ok (ep.update channel ch .add, ch)
  | .kDeleted =>
    if ep.m_channels ch.m_fd = some channel then
      let ch := { ch with m_index := .kAdded }
      .ok (ep.update channel ch .add, ch)
    else .error .updateChannel
  | .kAdded =>
    if ep.m_channels ch.m_fd = some channel then
      if ch.isRegistered then .ok (ep.update channel ch .mod, ch)
      else .ok (ep.update channel ch .del, { ch with m_index := .kDeleted })
    else .error .updateChannel

def removeChannel : Except Failure (Epoller × Channel) :=
  if ep.m_channels ch.m_fd = some channel ∧ ch.m_index ≠ .kNew then
    let forget (ep : Epoller) : Epoller :=
      { ep with m_channels := Function.update ep.m_channels ch.m_fd none }
    match ch.m_index with
    | .kAdded => .ok (forget (ep.update channel ch .del), { ch with m_index := .kDeleted })
    | _ => .ok (forget ep, ch)
  else .error .removeChannel

def hasChannel : Bool := ep.m_channels ch.m_fd = some channel

end Epoller

/-! ## Many channels -/

/-- A call that changes the events a channel is interested in. -/
inductive ChannelCall where
  | enableReading | enableWriting | disableReading | disableWriting | disableAll
  deriving DecidableEq, Repr

namespace ChannelCall

/-- `m_events` when the call comes to its `update()`. -/
def events (e : Events) : ChannelCall → Events
  | enableReading => e ||| kReadEvent
  | enableWriting => e ||| kWriteEvent
  | disableReading => e &&& ~~~kReadEvent
  | disableWriting => e &&& ~~~kWriteEvent
  | disableAll => kNoneEvent

end ChannelCall

/-- An epoller and the channels of its loop, each under its address. -/
structure Poll where
  m_epoller : Epoller
  channels : ℕ → Channel
  failed : Option Failure

inductive PollStep where
  | call (channel : ℕ) (c : ChannelCall)
  | removeChannel (channel : ℕ)
  deriving DecidableEq, Repr

namespace Poll

/-- Channels just constructed, for the descriptors `fds`. -/
def start (fds : ℕ → ℕ) : Poll := ⟨.new, fun p => .new (fds p), none⟩

variable (s : Poll)

def fd (p : ℕ) : ℕ := (s.channels p).m_fd

/-- What the epoller made of the channel at address `p`. -/
def put (p : ℕ) : Except Failure (Epoller × Channel) → Poll
  | .ok (ep, ch) => { s with m_epoller := ep, channels := Function.update s.channels p ch }
  | .error e => { s with failed := some e }

/-- One call. Only a channel that is in `m_channels` is removed. -/
def step : PollStep → Option Poll
  | .call p c =>
    if s.failed ≠ none then none
    else
      let ch := { s.channels p with m_events := c.events (s.channels p).m_events }
      some (s.put p (s.m_epoller.updateChannel p ch))
  | .removeChannel p =>
    if s.failed ≠ none ∨ !s.m_epoller.hasChannel p (s.channels p) then none
    else some (s.put p (s.m_epoller.removeChannel p (s.channels p)))

end Poll

end MyMuduo
