import MyMuduo.Spec.Epoller
import MyMuduo.Spec.HttpParser

/-!
# A connection (`Net/tcpconnection.h`, `Net/tcpconnection.cpp`)

The handlers of a `TcpConnection`, as functions on the connection and the epoller of its
loop. What a system call returned is an argument: `Except.error` carries an `errno`.
Where a handler ends in a callback, the callback is left to the caller, which runs it
next. A connection works on any byte queue.

Beside the members of the source a connection keeps what the outside sees of it: the
bytes the kernel took over (`wire`), whether the write side was shut down (`shutWr`), the
messages `sendInLoop` worked on (`sent`), and the events of its life in order (`trace`).
-/

namespace MyMuduo

open Lib

def EAGAIN : ℕ := 11
def EWOULDBLOCK : ℕ := EAGAIN
def EPIPE : ℕ := 32
def ECONNRESET : ℕ := 104

/-- `TcpConnection::ConnectionState`. -/
inductive ConnectionState where
  | kConnecting | kConnected | kDisconnecting | kDisconnected
  deriving DecidableEq, Repr

/-- What happens to a connection, as the outside sees it. -/
inductive ConnEvent where
  | readv | write | handleClose | closeCallback | connectionDestructor
  deriving DecidableEq, Repr

structure TcpConnection (Q : Type) where
  /-- the address of the object -/
  self : ℕ
  m_loop : ℕ
  m_state : ConnectionState
  m_channel : Channel
  m_input_buffer : Q
  m_output_buffer : Q
  m_httpParser : HttpRequestParser
  wire : Bytes
  shutWr : Bool
  sent : List Bytes
  trace : List ConnEvent

namespace TcpConnection

variable {Q : Type} [ByteQueue Q]

/-- `TcpConnection(loop, conn_fd, conn_id)`, with its two fresh buffers. -/
def new (self loop fd : ℕ) (buffer : Q) : TcpConnection Q where
  self := self
  m_loop := loop
  m_state := .kConnecting
  m_channel := Channel.new fd
  m_input_buffer := buffer
  m_output_buffer := buffer
  m_httpParser := .new
  wire := []
  shutWr := false
  sent := []
  trace := []

/-- `Channel::update` on the connection's channel, after its events became `events`. -/
def setEvents (ep : Epoller) (c : TcpConnection Q) (events : Events) :
    Except Failure (Epoller × TcpConnection Q) :=
  match ep.updateChannel c.self { c.m_channel with m_events := events } with
  | .ok (ep, ch) => .ok (ep, { c with m_channel := ch })
  | .error e => .error e

def enableReading (ep : Epoller) (c : TcpConnection Q) :=
  setEvents ep c (c.m_channel.m_events ||| kReadEvent)

def enableWriting (ep : Epoller) (c : TcpConnection Q) :=
  setEvents ep c (c.m_channel.m_events ||| kWriteEvent)

def disableWriting (ep : Epoller) (c : TcpConnection Q) :=
  setEvents ep c (c.m_channel.m_events &&& ~~~kWriteEvent)

def disableAll (ep : Epoller) (c : TcpConnection Q) := setEvents ep c kNoneEvent

/-- The unread bytes of the output buffer. -/
def output (c : TcpConnection Q) : Bytes := ByteQueue.readable c.m_output_buffer

/-! ## Handlers -/

/-- `connectionEstablished()`, up to the connection callback. -/
def connectionEstablished (ep : Epoller) (c : TcpConnection Q) :=
  enableReading ep { c with m_state := .kConnected }

/-- `connectionDestructor()`, up to the connection callback; `m_loop->remove(m_channel)`
comes after the callback. -/
def connectionDestructor (ep : Epoller) (c : TcpConnection Q) :
    Except Failure (Epoller × TcpConnection Q) :=
  let c := { c with trace := c.trace ++ [.connectionDestructor] }
  if c.m_state = .kConnected ∨ c.m_state = .kDisconnecting then
    disableAll ep { c with m_state := .kDisconnected }
  else .ok (ep, c)

/-- `handleClose()`, up to the close callback. -/
def handleClose (ep : Epoller) (c : TcpConnection Q) : Except Failure (Epoller × TcpConnection Q) :=
  if c.m_state = .kConnected ∨ c.m_state = .kDisconnecting then
    disableAll ep { c with m_state := .kDisconnected, trace := c.trace ++ [.handleClose] }
  else .error .handleClose

/-- The callback that `handleRead` ends in. -/
inductive ReadCallback where
  | message | close
  deriving DecidableEq, Repr

/-- `handleRead()` when `readv` returned `r`; no bytes means that the peer closed. -/
def handleRead (ep : Epoller) (c : TcpConnection Q) (r : Except ℕ Bytes) :
    Except Failure (Epoller × TcpConnection Q × Option ReadCallback) :=
  let close (c : TcpConnection Q) :=
    match handleClose ep c with
    | .ok (ep, c) => .ok (ep, c, some .close)
    | .error e => .error e
  let c := { c with trace := c.trace ++ [.readv] }
  match r with
  | .ok [] => close c
  | .ok data =>
    .ok (ep, { c with m_input_buffer := ByteQueue.fill c.m_input_buffer data }, some .message)
  | .error _ =>
    -- `readFd` takes `saved_errno` by value, so the errno does not reach this test
    let saved_errno := 0
    if saved_errno ≠ EAGAIN then close c else .ok (ep, c, none)

/-- `shutDownInLoop()`. -/
def shutDownInLoop (c : TcpConnection Q) : TcpConnection Q :=
  if c.m_channel.isWriting then c else { c with shutWr := true }

/-- How many of the `len` bytes it was offered `::write` took over. -/
def accepted (r : Except ℕ ℕ) (len : ℕ) : ℕ :=
  match r with
  | .ok n => min n len
  | .error _ => 0

/-- `handleWrite()` when `::write` returned `r`. -/
def handleWrite (ep : Epoller) (c : TcpConnection Q) (r : Except ℕ ℕ) :
    Except Failure (Epoller × TcpConnection Q) :=
  if c.m_channel.isWriting then
    let n := accepted r c.output.length
    let c := { c with trace := c.trace ++ [.write], wire := c.wire ++ c.output.take n }
    if 0 < n then
      let c := { c with m_output_buffer := ByteQueue.retrieve c.m_output_buffer n }
      if c.output = [] then
        match disableWriting ep c with
        | .ok (ep, c) => .ok (ep, if c.m_state = .kDisconnecting then c.shutDownInLoop else c)
        | .error e => .error e
      else .ok (ep, c)
    else .ok (ep, c)
  else .ok (ep, c)

/-- The error is fatal for the message: the peer is gone. -/
def faultError (r : Except ℕ ℕ) : Bool :=
  match r with
  | .ok _ => false
  | .error e => e = EPIPE ∨ e = ECONNRESET

/-- The direct write of `sendInLoop`: how many bytes it got rid of, and `faultError`. -/
def directWrite (c : TcpConnection Q) (msg : Bytes) (r : Except ℕ ℕ) : TcpConnection Q × ℕ × Bool :=
  if !c.m_channel.isWriting ∧ c.output = [] then
    let wroteNum := accepted r msg.length
    ({ c with trace := c.trace ++ [.write], wire := c.wire ++ msg.take wroteNum }, wroteNum,
      faultError r)
  else (c, 0, false)

/-- `sendInLoop(msg, len)` when its `::write`, if it comes to one, returns `r`. -/
def sendInLoop (ep : Epoller) (c : TcpConnection Q) (msg : Bytes) (r : Except ℕ ℕ) :
    Except Failure (Epoller × TcpConnection Q) :=
  if c.m_state = .kDisconnected then .ok (ep, c)
  else
    let (c, wroteNum, faultError) := directWrite { c with sent := c.sent ++ [msg] } msg r
    let remaining := msg.length - wroteNum
    if !faultError ∧ 0 < remaining then
      let c := { c with m_output_buffer := ByteQueue.append c.m_output_buffer (msg.drop wroteNum) }
      if !c.m_channel.isWriting then enableWriting ep c else .ok (ep, c)
    else .ok (ep, c)

/-! ## Calls -/

/-- A member function bound to a raw `this`, queued for the loop thread. -/
inductive Deferred where
  | sendInLoop (msg : Bytes)
  | shutDownInLoop
  | forceCloseInLoop
  deriving DecidableEq, Repr

/-- `send(message, len)`. Outside of the loop thread `sendInLoop` is queued. -/
def send (ep : Epoller) (c : TcpConnection Q) (msg : Bytes) (inLoopThread : Bool) (r : Except ℕ ℕ) :
    Except Failure (Epoller × TcpConnection Q × Option Deferred) :=
  if c.m_state = .kConnected then
    if inLoopThread then
      match sendInLoop ep c msg r with
      | .ok (ep, c) => .ok (ep, c, none)
      | .error e => .error e
    else .ok (ep, c, some (.sendInLoop msg))
  else .ok (ep, c, none)

/-- `shutDown()`: `runInLoop` calls `shutDownInLoop` at once in the loop thread. -/
def shutDown (c : TcpConnection Q) (inLoopThread : Bool) : TcpConnection Q × Option Deferred :=
  if c.m_state = .kConnected then
    let c := { c with m_state := .kDisconnecting }
    if inLoopThread then (c.shutDownInLoop, none) else (c, some .shutDownInLoop)
  else (c, none)

/-- `forceClose()`. -/
def forceClose (c : TcpConnection Q) : TcpConnection Q × Option Deferred :=
  if c.m_state = .kConnected ∨ c.m_state = .kDisconnecting then
    ({ c with m_state := .kDisconnecting }, some .forceCloseInLoop)
  else (c, none)

end TcpConnection

end MyMuduo
